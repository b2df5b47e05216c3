import Harmonia.Io.Watched
import Harmonia.Protocol.NixWriter

/-!
# Buffers of the protocol over writers that take nothing

The framed writer always comes to a `WriteZero` error. The buffered writer of the protocol does so as
well, but it hands a slice that is larger than its buffer on, and with it the answer.
-/

namespace Harmonia

variable {W : Type} [AsyncWrite W] [SaneWrite W]

/-! ## Framed bodies -/

namespace Protocol.FramedWriter

/-- What is noted of the writer below. -/
def noted (this : FramedWriter (Watched W)) : Bool := this.inner.zero

/-- The loop that offers the buffer. -/
theorem writeBuf_prompt (turns : Nat) {this : FramedWriter (Watched W)} (quiet : this.noted = false) :
    Prompt noted (this.writeBuf turns) := by
  induction turns generalizing this with
  | zero => exact .of_quiet nofun quiet
  | succ turns ih =>
    rw [writeBuf]
    split
    case isTrue => exact .of_quiet nofun quiet
    case isFalse some =>
      have answers := pollWrite_answers this.inner some
      generalize pollWrite this.inner this.buf = result at answers
      cases answers with
      | @took next count positive within same =>
        simp only [if_neg (Nat.pos_iff_ne_zero.mp positive), if_neg (Nat.not_lt.mpr within)]
        exact ih (same.trans quiet)
      | nothing noted => exact ⟨nofun, fun _ => ⟨writeZero, rfl, rfl⟩⟩
      | pending same => exact .of_quiet nofun (same.trans quiet)
      | error same => exact .of_quiet nofun (same.trans quiet)

/-- `poll_flush_buf`; when it is done there is room. -/
theorem pollFlushBuf_prompt (spare : Spare) {this : FramedWriter (Watched W)}
    (quiet : this.noted = false) :
    Prompt noted (this.pollFlushBuf spare) ∧ ∀ next, this.pollFlushBuf spare = (.ready (), next) →
      next.noted = false ∧ 0 < next.remainingMut := by
  have size : reservedBufSize = 16384 := by decide
  have begun : this.startFlush.noted = false := by
    rw [startFlush]
    split <;> exact quiet
  rw [pollFlushBuf]
  split
  case isFalse =>
    refine ⟨.of_quiet (by rintro ⟨⟩) begun, ?_⟩
    rintro next same
    cases same
    refine ⟨begun, ?_⟩
    show 0 < reserved _ _ _ reservedBufSize - this.startFlush.buf.length
    unfold reserved
    split <;> omega
  case isTrue =>
    have prompt := writeBuf_prompt this.startFlush.buf.length begun
    generalize this.startFlush.writeBuf this.startFlush.buf.length = result at prompt
    obtain ⟨poll, next⟩ := result
    cases poll with
    | ready _ =>
      have quiet' : next.noted = false := prompt.quiet
      refine ⟨.of_quiet (by rintro ⟨⟩) quiet', ?_⟩
      rintro last same
      cases same
      refine ⟨quiet', ?_⟩
      show 0 < reserved _ next.capacity 0 reservedBufSize - (toLeBytes 0).length
      rw [toLeBytes_length]
      unfold reserved
      split <;> omega
    | pending => exact ⟨prompt, by intro _ same; cases same⟩
    | error error => exact ⟨prompt, by intro _ same; cases same⟩
    | panic => exact ⟨prompt, by intro _ same; cases same⟩

omit [AsyncWrite W] [SaneWrite W] in
/-- Gathering what there is room for. -/
theorem gather_accepting {this : FramedWriter (Watched W)} (quiet : this.noted = false)
    (room : 0 < this.remainingMut) (data : Bytes) : Accepting noted data (this.gather data) := by
  refine ⟨.of_quiet nofun quiet, ?_⟩
  rintro count same some
  cases same
  have length := List.length_pos_iff.mpr some
  show 0 < min data.length this.remainingMut
  omega

/-- `poll_write`. -/
theorem pollWriteData_accepting (spare : Spare) {this : FramedWriter (Watched W)}
    (quiet : this.noted = false) (data : Bytes) :
    Accepting noted data (this.pollWriteData spare data) := by
  rw [pollWriteData]
  split
  case isTrue =>
    obtain ⟨prompt, flushed⟩ := pollFlushBuf_prompt spare quiet
    generalize this.pollFlushBuf spare = result at prompt flushed
    obtain ⟨poll, next⟩ := result
    cases poll with
    | ready _ =>
      obtain ⟨quiet', room⟩ := flushed next rfl
      exact gather_accepting quiet' room data
    | pending => exact ⟨.of_quiet nofun (by simpa using prompt.2), nofun⟩
    | error error => exact ⟨⟨nofun, fun noted => by simpa using prompt.2 noted⟩, nofun⟩
    | panic => exact absurd rfl prompt.1
  case isFalse large =>
    have room : 0 < this.remainingMut := Nat.pos_of_ne_zero fun none => large (.inl none)
    exact gather_accepting quiet room data

/-- Flushing the writer below. -/
theorem flushInner_prompt {this : FramedWriter (Watched W)} (quiet : this.noted = false) :
    Prompt noted this.flushInner :=
  .of_quiet (pollFlush_same this.inner).1 quiet

/-- `poll_flush`. -/
theorem pollFlushAll_prompt (spare : Spare) {this : FramedWriter (Watched W)}
    (quiet : this.noted = false) : Prompt noted (this.pollFlushAll spare) := by
  obtain ⟨prompt, flushed⟩ := pollFlushBuf_prompt spare quiet
  rw [pollFlushAll]
  generalize this.pollFlushBuf spare = result at prompt flushed
  obtain ⟨poll, next⟩ := result
  cases poll with
  | ready _ => exact flushInner_prompt (flushed next rfl).1
  | pending => exact prompt
  | error error => exact prompt
  | panic => exact prompt

/-- `poll_shutdown`. -/
theorem pollShutdown_prompt (spare : Spare) {this : FramedWriter (Watched W)}
    (quiet : this.noted = false) : Prompt noted (this.pollShutdown spare) := by
  obtain ⟨prompt, flushed⟩ := pollFlushBuf_prompt spare quiet
  rw [pollShutdown]
  generalize this.pollFlushBuf spare = result at prompt flushed
  obtain ⟨poll, next⟩ := result
  cases poll with
  | ready _ =>
    have quiet' := (flushed next rfl).1
    dsimp only
    split
    case isTrue => exact @flushInner_prompt W _ _ { next with shutdown := true } quiet'
    case isFalse =>
      have last := writeBuf_prompt next.buf.length quiet'
      generalize next.writeBuf next.buf.length = result at last
      obtain ⟨poll, after⟩ := result
      cases poll with
      | ready _ =>
        have quiet'' : after.noted = false := last.quiet
        exact @flushInner_prompt W _ _ { after with shutdown := true } quiet''
      | pending => exact last
      | error error => exact last
      | panic => exact last
  | pending => exact prompt
  | error error => exact prompt
  | panic => exact prompt

end Protocol.FramedWriter

/-! ## The buffered writer -/

namespace Protocol.NixWriter

/-- What is noted of the writer below. -/
def noted (this : NixWriter (Watched W)) : Bool := this.inner.zero

/-- The loop that offers the buffer. -/
theorem writeBuf_prompt (turns : Nat) {this : NixWriter (Watched W)} (quiet : this.noted = false) :
    Prompt noted (this.writeBuf turns) := by
  induction turns generalizing this with
  | zero => exact .of_quiet nofun quiet
  | succ turns ih =>
    rw [writeBuf]
    split
    case isTrue => exact .of_quiet nofun quiet
    case isFalse some =>
      have answers := pollWrite_answers this.inner some
      generalize pollWrite this.inner this.buf = result at answers
      cases answers with
      | @took next count positive within same =>
        simp only [if_neg (Nat.pos_iff_ne_zero.mp positive), if_neg (Nat.not_lt.mpr within)]
        exact ih (same.trans quiet)
      | nothing noted => exact ⟨nofun, fun _ => ⟨FramedWriter.writeZero, rfl, rfl⟩⟩
      | pending same => exact .of_quiet nofun (same.trans quiet)
      | error same => exact .of_quiet nofun (same.trans quiet)

/-- `poll_flush_buf`. -/
theorem pollFlushBuf_prompt (spare : Spare) {this : NixWriter (Watched W)} (quiet : this.noted = false) :
    Prompt noted (this.pollFlushBuf spare) := by
  have prompt := writeBuf_prompt this.buf.length quiet
  rw [pollFlushBuf]
  generalize this.writeBuf this.buf.length = result at prompt
  obtain ⟨poll, next⟩ := result
  cases poll with
  | ready _ =>
    dsimp only
    split <;> exact .of_quiet (by rintro ⟨⟩) prompt.quiet
  | pending => exact prompt
  | error error => exact prompt
  | panic => exact prompt

/-- The writer below takes something of a slice that is handed on to it. -/
def HandsOn (spare : Spare) (this : NixWriter (Watched W)) (buf : Bytes) : Prop :=
  ∀ ready : NixWriter (Watched W),
    (ready = this ∨ this.pollFlushBuf spare = (.ready (), ready)) → ready.capacity < buf.length →
      ∀ next, pollWrite ready.inner buf ≠ (.ready 0, next)

/-- The end of `poll_write`. -/
theorem put_accepting {this : NixWriter (Watched W)} (quiet : this.noted = false) {buf : Bytes}
    (takes : this.capacity < buf.length → ∀ next, pollWrite this.inner buf ≠ (.ready 0, next)) :
    Accepting noted buf (this.put buf) := by
  rw [put]
  split
  case isTrue large =>
    have some : buf ≠ [] := List.length_pos_iff.mp (Nat.lt_of_le_of_lt (Nat.zero_le _) large)
    have answers := pollWrite_answers this.inner some
    have takes := takes large
    generalize pollWrite this.inner buf = result at answers takes
    cases answers with
    | took positive within same =>
      refine ⟨.of_quiet nofun (same.trans quiet), ?_⟩
      rintro count equal _
      cases equal
      exact positive
    | nothing noted => exact absurd rfl (takes _)
    | pending same => exact ⟨.of_quiet nofun (same.trans quiet), nofun⟩
    | error same => exact ⟨.of_quiet nofun (same.trans quiet), nofun⟩
  case isFalse =>
    refine ⟨.of_quiet nofun quiet, ?_⟩
    rintro count same some
    cases same
    exact List.length_pos_iff.mpr some

/-- `poll_write`, where the writer below takes something of what is handed on. -/
theorem pollWriteData_accepting (spare : Spare) {this : NixWriter (Watched W)}
    (quiet : this.noted = false) {buf : Bytes} (takes : HandsOn spare this buf) :
    Accepting noted buf (this.pollWriteData spare buf) := by
  rw [pollWriteData]
  split
  case isTrue =>
    have prompt := pollFlushBuf_prompt spare quiet
    generalize flushed : this.pollFlushBuf spare = result at prompt
    obtain ⟨poll, next⟩ := result
    cases poll with
    | ready _ => exact put_accepting prompt.quiet (takes next (.inr flushed))
    | pending => exact ⟨.of_quiet nofun (by simpa using prompt.2), nofun⟩
    | error error => exact ⟨⟨nofun, fun noted => by simpa using prompt.2 noted⟩, nofun⟩
    | panic => exact absurd rfl prompt.1
  case isFalse => exact put_accepting quiet (takes this (.inl rfl))

/-- Flushing the writer below. -/
theorem settleInner_prompt {this : NixWriter (Watched W)} (quiet : this.noted = false) :
    Prompt noted this.settleInner :=
  .of_quiet (pollFlush_same this.inner).1 quiet

/-- `poll_flush`. -/
theorem pollFlushAll_prompt (spare : Spare) {this : NixWriter (Watched W)} (quiet : this.noted = false) :
    Prompt noted (this.pollFlushAll spare) := by
  have prompt := pollFlushBuf_prompt spare quiet
  rw [pollFlushAll]
  generalize this.pollFlushBuf spare = result at prompt
  obtain ⟨poll, next⟩ := result
  cases poll with
  | ready _ => exact settleInner_prompt prompt.quiet
  | pending => exact prompt
  | error error => exact prompt
  | panic => exact prompt

/-- `poll_shutdown`. -/
theorem pollShutdown_prompt (spare : Spare) {this : NixWriter (Watched W)} (quiet : this.noted = false) :
    Prompt noted (this.pollShutdown spare) := by
  have prompt := pollFlushAll_prompt spare quiet
  rw [pollShutdown]
  generalize this.pollFlushAll spare = result at prompt
  obtain ⟨poll, next⟩ := result
  cases poll with
  | ready _ => exact settleInner_prompt prompt.quiet
  | pending => exact prompt
  | error error => exact prompt
  | panic => exact prompt

end Protocol.NixWriter

namespace Protocol

/-- The framed writer: nothing has to be met. -/
def framedAdapter (W : Type) [AsyncWrite W] (spare : Spare) : Adapter where
  State := FramedWriter (Watched W)
  Call := WriteCall
  poll _ call this :=
    match call with
    | .write slice => this.pollWriteData spare slice
    | .flush => (Poll.count (this.pollFlushAll spare).1, (this.pollFlushAll spare).2)
    | .shutdown => (Poll.count (this.pollShutdown spare).1, (this.pollShutdown spare).2)
  slice := WriteCall.slice
  noted := FramedWriter.noted
  begin this := { this with inner := ⟨this.inner.inner, false⟩ }
  Meets _ _ := True

/-- The buffered writer of the protocol: the writer below takes something of a slice that is handed on. -/
def nixAdapter (W : Type) [AsyncWrite W] (spare : Spare) : Adapter where
  State := NixWriter (Watched W)
  Call := WriteCall
  poll _ call this :=
    match call with
    | .write slice => this.pollWriteData spare slice
    | .flush => (Poll.count (this.pollFlushAll spare).1, (this.pollFlushAll spare).2)
    | .shutdown => (Poll.count (this.pollShutdown spare).1, (this.pollShutdown spare).2)
  slice := WriteCall.slice
  noted := NixWriter.noted
  begin this := { this with inner := ⟨this.inner.inner, false⟩ }
  Meets call this :=
    match call with
    | .write slice => NixWriter.HandsOn spare this slice
    | _ => True

end Protocol

namespace Protocol

/-- A framed writer heeds the writer below in every state. -/
theorem framedAdapter_heeds (spare : Spare) (this : FramedWriter (Watched W)) (call : WriteCall) :
    (framedAdapter W spare).Heeds call ((framedAdapter W spare).begin this) := by
  apply Adapter.Heeds.of_all
  intro rounds
  cases call with
  | write slice => exact FramedWriter.pollWriteData_accepting spare rfl slice
  | flush => exact (FramedWriter.pollFlushAll_prompt spare rfl).accepting
  | shutdown => exact (FramedWriter.pollShutdown_prompt spare rfl).accepting

/-- A buffered writer heeds the writer below that takes something of what is handed on. -/
theorem nixAdapter_heeds (spare : Spare) (this : NixWriter (Watched W)) {call : WriteCall}
    (meets : (nixAdapter W spare).Meets call ((nixAdapter W spare).begin this)) :
    (nixAdapter W spare).Heeds call ((nixAdapter W spare).begin this) := by
  apply Adapter.Heeds.of_all
  intro rounds
  cases call with
  | write slice => exact NixWriter.pollWriteData_accepting spare rfl meets
  | flush => exact (NixWriter.pollFlushAll_prompt spare rfl).accepting
  | shutdown => exact (NixWriter.pollShutdown_prompt spare rfl).accepting

end Protocol

end Harmonia
