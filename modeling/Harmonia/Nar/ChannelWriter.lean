import Harmonia.Io.Write

/-!
# A writer into a channel

`ChannelWriter` of `archive/byte_stream.rs`. Bytes are gathered into chunks, and a chunk goes into a
bounded channel once it is full, or when the writer is flushed. What the consumer at the other end
does shows only in how the channel answers when a slot is asked for.
-/

namespace Harmonia.Nar

/-- How a channel answers when a slot is asked for. -/
inductive Slot where
  /-- There is one. -/
  | free
  /-- The channel is full. -/
  | full
  /-- The receiver is gone. -/
  | closed
  deriving DecidableEq, Repr

/-- `PollSender`: the next answers, after which there is always a slot, and what has been sent. -/
structure PollSender where
  /-- The next answers. -/
  slots : List Slot
  /-- The chunks that have been sent. -/
  sent : List Bytes
  deriving DecidableEq, Repr

/-- The error of a channel without a receiver. -/
def channelClosed : IoError := ⟨.other, "channel closed"⟩

/-- `poll_reserve`. -/
def PollSender.pollReserve (this : PollSender) : Poll Unit × PollSender :=
  match this.slots with
  | [] => (.ready (), this)
  | .free :: slots => (.ready (), { this with slots := slots })
  | .full :: slots => (.pending, { this with slots := slots })
  | .closed :: slots => (.error channelClosed, { this with slots := slots })

/-- `send_item`, into the slot that was asked for. -/
def PollSender.sendItem (this : PollSender) (chunk : Bytes) : PollSender :=
  { this with sent := this.sent ++ [chunk] }

/-- `ChannelWriter`. -/
structure ChannelWriter where
  /-- The channel. -/
  sender : PollSender
  /-- Bytes of the next chunk. -/
  buffer : Bytes
  /-- The size of a full chunk. -/
  chunkSize : Nat
  deriving DecidableEq, Repr

namespace ChannelWriter

/-- `ChannelWriter::new`. -/
def new (sender : PollSender) (chunkSize : Nat) : ChannelWriter := ⟨sender, [], chunkSize⟩

/-- `poll_emit_chunk`. -/
def pollEmitChunk (this : ChannelWriter) : Poll Unit × ChannelWriter :=
  if this.buffer = [] then (.ready (), this)
  else
    match this.sender.pollReserve with
    | (.ready _, sender) =>
      (.ready (), { this with sender := sender.sendItem this.buffer, buffer := [] })
    | (result, sender) => (result, { this with sender := sender })

/-- Put down what fits. -/
def fill (this : ChannelWriter) (buf : Bytes) : Poll Nat × ChannelWriter :=
  let n := min buf.length (this.chunkSize - this.buffer.length)
  (.ready n, { this with buffer := this.buffer ++ buf.take n })

/-- `poll_write`. -/
def pollWrite (this : ChannelWriter) (buf : Bytes) : Poll Nat × ChannelWriter :=
  if this.chunkSize ≤ this.buffer.length then
    match this.pollEmitChunk with
    | (.ready _, this) => this.fill buf
    | (.pending, this) => (.pending, this)
    | (.error error, this) => (.error error, this)
    | (.panic, this) => (.panic, this)
  else this.fill buf

/-- What has been taken: the chunks that were sent, and the one that is gathered. -/
def taken (this : ChannelWriter) : Bytes := this.sender.sent.flatten ++ this.buffer

/-- The receiver stays, and chunks are not empty. -/
def Open (this : ChannelWriter) : Prop := .closed ∉ this.sender.slots ∧ 0 < this.chunkSize

/-- What emitting a chunk does while the receiver is there. -/
inductive Emits (this : ChannelWriter) : Poll Unit × ChannelWriter → Prop
  | ready {next : ChannelWriter} (same : next.taken = this.taken) (opened : next.Open)
    (none : next.buffer = []) (size : next.chunkSize = this.chunkSize)
    (spent : next.sender.slots.length ≤ this.sender.slots.length) : Emits this (.ready (), next)
  | pending {next : ChannelWriter} (same : next.taken = this.taken) (opened : next.Open)
    (less : next.sender.slots.length < this.sender.slots.length) : Emits this (.pending, next)

/-- Emitting a chunk. -/
theorem pollEmitChunk_emits {this : ChannelWriter} (opened : this.Open) :
    Emits this this.pollEmitChunk := by
  obtain ⟨⟨slots, sent⟩, buffer, chunkSize⟩ := this
  obtain ⟨present, positive⟩ := opened
  have moved : (sent ++ [buffer]).flatten ++ [] = sent.flatten ++ buffer := by
    simp only [List.flatten_append, List.flatten_cons, List.flatten_nil, List.append_nil]
  rw [pollEmitChunk]
  split
  case isTrue none => exact .ready rfl ⟨present, positive⟩ none rfl (Nat.le_refl _)
  case isFalse some =>
    cases slots with
    | nil => exact .ready moved ⟨present, positive⟩ rfl rfl (Nat.le_refl _)
    | cons slot slots =>
      have others : Slot.closed ∉ slots := fun member => present (List.mem_cons_of_mem _ member)
      cases slot with
      | free => exact .ready moved ⟨others, positive⟩ rfl rfl (Nat.le_succ _)
      | full => exact .pending rfl ⟨others, positive⟩ (Nat.lt_succ_self _)
      | closed => exact absurd List.mem_cons_self present

/-- What a write does while the receiver is there. -/
inductive Takes (this : ChannelWriter) (buf : Bytes) : Poll Nat × ChannelWriter → Prop
  | ready {next : ChannelWriter} {count : Nat} (some : 0 < count) (within : count ≤ buf.length)
    (joined : next.taken = this.taken ++ buf.take count) (opened : next.Open)
    (spent : next.sender.slots.length ≤ this.sender.slots.length) : Takes this buf (.ready count, next)
  | pending {next : ChannelWriter} (same : next.taken = this.taken) (opened : next.Open)
    (less : next.sender.slots.length < this.sender.slots.length) : Takes this buf (.pending, next)

/-- Putting something down behind a chunk that is not full. -/
theorem fill_takes {this : ChannelWriter} (opened : this.Open) {buf : Bytes} (some : buf ≠ [])
    (room : this.buffer.length < this.chunkSize) : Takes this buf (this.fill buf) := by
  have offered : 0 < buf.length := List.length_pos_iff.mpr some
  refine .ready ?_ (Nat.min_le_left _ _) (List.append_assoc _ _ _).symm opened (Nat.le_refl _)
  omega

/-- Writing something. -/
theorem pollWrite_takes {this : ChannelWriter} (opened : this.Open) {buf : Bytes} (some : buf ≠ []) :
    Takes this buf (this.pollWrite buf) := by
  rw [pollWrite]
  split
  case isTrue full =>
    have emitted := pollEmitChunk_emits opened
    generalize this.pollEmitChunk = result at emitted
    cases emitted with
    | @ready next same opened' none size spent =>
      have room : next.buffer.length < next.chunkSize := by
        rw [none]
        exact opened'.2
      have filled := fill_takes opened' some room
      simp only
      generalize next.fill buf = result at filled
      cases filled with
      | ready some within joined opened spent' =>
        exact .ready some within (same ▸ joined) opened (Nat.le_trans spent' spent)
      | pending same' opened less =>
        exact .pending (same'.trans same) opened (Nat.lt_of_lt_of_le less spent)
    | pending same opened' less => exact .pending same opened' less
  case isFalse room => exact fill_takes opened some (Nat.lt_of_not_le room)

instance : AsyncWrite ChannelWriter where
  pollWrite := ChannelWriter.pollWrite
  pollFlush := pollEmitChunk
  written := taken

instance : PatientWrite ChannelWriter where
  turns this := this.sender.slots.length

instance : SteadyWrite ChannelWriter where
  Steady := Open
  wrote {this buf} opened some := by
    have takes := pollWrite_takes opened some
    show Wrote Open this buf (this.pollWrite buf)
    generalize this.pollWrite buf = result at takes
    cases takes with
    | ready some within joined opened spent => exact .ready some within joined opened
    | pending same opened less => exact .pending same opened
  flushed {this} opened := by
    have emits := pollEmitChunk_emits opened
    show Flushed Open this this.pollEmitChunk
    generalize this.pollEmitChunk = result at emits
    cases emits with
    | ready same opened none size spent => exact .ready same opened
    | pending same opened less => exact .pending same opened

instance : LawfulPatience ChannelWriter where
  write_pending {this next buf} opened some answer := by
    have takes := pollWrite_takes opened some
    rw [show this.pollWrite buf = (.pending, next) from answer] at takes
    cases takes with
    | pending same opened less => exact less
  write_ready {this next buf count} opened some answer := by
    have takes := pollWrite_takes opened some
    rw [show this.pollWrite buf = (.ready count, next) from answer] at takes
    cases takes with
    | ready some within joined opened spent => exact spent
  flush_pending {this next} opened answer := by
    have emits := pollEmitChunk_emits opened
    rw [show this.pollEmitChunk = (.pending, next) from answer] at emits
    cases emits with
    | pending same opened less => exact less
  flush_ready {this next} opened answer := by
    have emits := pollEmitChunk_emits opened
    rw [show this.pollEmitChunk = (.ready (), next) from answer] at emits
    cases emits with
    | ready same opened none size spent => exact spent

/-- A writer that has been flushed has sent all it took. -/
theorem flushed_sent {this next : ChannelWriter} (flushed : pollFlush this = (.ready (), next)) :
    next.sender.sent.flatten = next.taken := by
  have none : next.buffer = [] := by
    have emitted : this.pollEmitChunk = (.ready (), next) := flushed
    rw [pollEmitChunk] at emitted
    split at emitted
    case isTrue none =>
      cases emitted
      exact none
    case isFalse some =>
      generalize this.sender.pollReserve = result at emitted
      obtain ⟨answer, sender⟩ := result
      cases answer <;> cases emitted
      rfl
  rw [taken, none, List.append_nil]

/-- What has been sent is no more than what was taken. -/
theorem sent_le_taken (this : ChannelWriter) :
    this.sender.sent.flatten.length ≤ this.taken.length := by
  rw [taken, List.length_append]
  exact Nat.le_add_right _ _

end ChannelWriter

end Harmonia.Nar
