import Harmonia.Io.Write

/-!
# Writing to two writers

`tee.rs` of `harmonia-utils-io`. What is accepted is gathered in one buffer, and a flush offers the
buffer to both writers, each from its own offset. Whatever the writers take at a time and whenever
they are pending, each of them has received the beginning of what was accepted, and all of it once a
flush is done. But the buffer is not flushed for a slice that is at least as large as it is: when it is
full, nothing of such a slice is accepted, and a `write_all` fails.
-/

namespace Harmonia

/-- `TeeWriter`. -/
structure TeeWriter (W1 W2 : Type) where
  /-- Bytes that have been accepted and not yet taken by both writers. -/
  buf : Bytes
  /-- How many of them the first writer has taken. -/
  written1 : Nat
  /-- How many of them the second writer has taken. -/
  written2 : Nat
  /-- The first writer. -/
  writer1 : W1
  /-- The second writer. -/
  writer2 : W2
  /-- `buf.capacity()`. -/
  capacity : Nat
  deriving DecidableEq, Repr

namespace TeeWriter

variable {W1 W2 : Type}

/-- `TeeWriter::new`, with the capacity that was allocated. -/
def new (writer1 : W1) (writer2 : W2) (capacity : Nat) : TeeWriter W1 W2 :=
  ⟨[], 0, 0, writer1, writer2, capacity⟩

section Polls

variable [AsyncWrite W1] [AsyncWrite W2]

/-- Offer the first writer what it has not taken. -/
def offer1 (this : TeeWriter W1 W2) : Poll Unit × TeeWriter W1 W2 :=
  if this.written1 < this.buf.length then
    match pollWrite this.writer1 (this.buf.drop this.written1) with
    | (.ready n, writer) => (.ready (), { this with writer1 := writer, written1 := this.written1 + n })
    | (.pending, writer) => (.pending, { this with writer1 := writer })
    | (.error error, writer) => (.error error, { this with writer1 := writer })
    | (.panic, writer) => (.panic, { this with writer1 := writer })
  else (.ready (), this)

/-- Offer the second writer what it has not taken. -/
def offer2 (this : TeeWriter W1 W2) : Poll Unit × TeeWriter W1 W2 :=
  if this.written2 < this.buf.length then
    match pollWrite this.writer2 (this.buf.drop this.written2) with
    | (.ready n, writer) => (.ready (), { this with writer2 := writer, written2 := this.written2 + n })
    | (.pending, writer) => (.pending, { this with writer2 := writer })
    | (.error error, writer) => (.error error, { this with writer2 := writer })
    | (.panic, writer) => (.panic, { this with writer2 := writer })
  else (.ready (), this)

/-- The loop of `poll_flush_buf`, for so many rounds at most. -/
def flushLoop : Nat → TeeWriter W1 W2 → Poll Unit × TeeWriter W1 W2
  | 0, this => (.panic, this)
  | rounds + 1, this =>
    if this.written1 < this.buf.length ∨ this.written2 < this.buf.length then
      match this.offer1 with
      | (.ready _, this) =>
        match this.offer2 with
        | (.ready _, this) => flushLoop rounds this
        | result => result
      | result => result
    else (.ready (), { this with buf := [], written1 := 0, written2 := 0 })

/-- `poll_flush_buf`. -/
def pollFlushBuf (rounds : Nat) (this : TeeWriter W1 W2) : Poll Unit × TeeWriter W1 W2 :=
  if this.buf = [] then (.ready (), this) else this.flushLoop rounds

/-- The end of `poll_write`: as much as there is room for. -/
def accept (this : TeeWriter W1 W2) (buf : Bytes) : Poll Nat × TeeWriter W1 W2 :=
  let rem := min buf.length (this.capacity - this.buf.length)
  (.ready rem, { this with buf := this.buf ++ buf.take rem })

/-- `poll_write`. -/
def pollWrite (rounds : Nat) (this : TeeWriter W1 W2) (buf : Bytes) : Poll Nat × TeeWriter W1 W2 :=
  if buf.length < this.capacity then
    if this.capacity < buf.length + this.buf.length then
      match this.pollFlushBuf rounds with
      | (.ready _, this) => this.accept buf
      | (.pending, this) => (.pending, this)
      | (.error error, this) => (.error error, this)
      | (.panic, this) => (.panic, this)
    else this.accept buf
  else this.accept buf

/-- `poll_flush` of both writers, and `poll_shutdown` of both. -/
def settleBoth (this : TeeWriter W1 W2) : Poll Unit × TeeWriter W1 W2 :=
  match pollFlush this.writer1 with
  | (.ready _, writer1) =>
    let (result, writer2) := pollFlush this.writer2
    (result, { this with writer1 := writer1, writer2 := writer2 })
  | (result, writer1) => (result, { this with writer1 := writer1 })

/-- `poll_flush`. -/
def pollFlushAll (rounds : Nat) (this : TeeWriter W1 W2) : Poll Unit × TeeWriter W1 W2 :=
  match this.pollFlushBuf rounds with
  | (.ready _, this) => this.settleBoth
  | result => result

/-- `poll_shutdown`. -/
def pollShutdown (rounds : Nat) (this : TeeWriter W1 W2) : Poll Unit × TeeWriter W1 W2 :=
  match this.pollFlushAll rounds with
  | (.ready _, this) => this.settleBoth
  | result => result

end Polls

/-! ## What both have received -/

section Received

variable [AsyncWrite W1] [AsyncWrite W2] [SteadyWrite W1] [SteadyWrite W2]

/-- The states of a writer that has accepted some bytes: each writer has received those of the buffers
before, and of this buffer up to its offset. -/
structure Holds (start1 start2 accepted : Bytes) (this : TeeWriter W1 W2) : Prop where
  /-- The first offset is in the buffer. -/
  within1 : this.written1 ≤ this.buf.length
  /-- The second offset is in the buffer. -/
  within2 : this.written2 ≤ this.buf.length
  /-- The buffer does not grow. -/
  room : this.buf.length ≤ this.capacity
  /-- The first writer is steady. -/
  steady1 : Steady this.writer1
  /-- The second writer is steady. -/
  steady2 : Steady this.writer2
  /-- What was in the buffers before is in front of what is in the buffer. -/
  sent : ∃ before, accepted = before ++ this.buf ∧
    written this.writer1 = start1 ++ before ++ this.buf.take this.written1 ∧
    written this.writer2 = start2 ++ before ++ this.buf.take this.written2

/-- What is taken behind an offset is what comes behind the bytes up to it. -/
theorem take_more (buf : Bytes) (offset count : Nat) :
    buf.take offset ++ (buf.drop offset).take count = buf.take (offset + count) :=
  List.take_add.symm

end Received

section Patient

variable [AsyncWrite W1] [AsyncWrite W2] [SteadyWrite W1] [SteadyWrite W2] [PatientWrite W1]
  [PatientWrite W2]

/-- How often the writers may still put the caller off. -/
def waits (this : TeeWriter W1 W2) : Nat := turns this.writer1 + turns this.writer2

/-- What the writers have not taken. -/
def owed (this : TeeWriter W1 W2) : Nat :=
  (this.buf.length - this.written1) + (this.buf.length - this.written2)

/-- What offering the buffer to a writer does. -/
inductive Offers (start1 start2 accepted : Bytes) (this : TeeWriter W1 W2) (progress : Prop) :
    Poll Unit × TeeWriter W1 W2 → Prop
  | ready {next : TeeWriter W1 W2} (holds : Holds start1 start2 accepted next)
    (same : next.buf = this.buf) (size : next.capacity = this.capacity)
    (other : next.owed ≤ this.owed) (less : progress → next.owed < this.owed)
    (spent : next.waits ≤ this.waits) : Offers start1 start2 accepted this progress (.ready (), next)
  | pending {next : TeeWriter W1 W2} (holds : Holds start1 start2 accepted next)
    (size : next.capacity = this.capacity) (less : next.waits < this.waits) :
    Offers start1 start2 accepted this progress (.pending, next)

variable [LawfulPatience W1] [LawfulPatience W2] {start1 start2 accepted : Bytes}
  {this : TeeWriter W1 W2}

omit [LawfulPatience W2] in
/-- Offering the buffer to the first writer. -/
theorem offer1_offers (holds : Holds start1 start2 accepted this) :
    Offers start1 start2 accepted this (this.written1 < this.buf.length) this.offer1 := by
  obtain ⟨before, joined, sent1, sent2⟩ := holds.sent
  rw [offer1]
  split
  case isFalse done =>
    exact .ready holds rfl rfl (Nat.le_refl _) (fun more => absurd more done) (Nat.le_refl _)
  case isTrue more =>
    have some : this.buf.drop this.written1 ≠ [] := by
      intro none
      exact absurd (List.drop_eq_nil_iff.mp none) (Nat.not_le_of_lt more)
    have wrote := pollWrite_writes holds.steady1 some
    generalize Harmonia.pollWrite this.writer1 (this.buf.drop this.written1) = result at wrote
    cases wrote with
    | @ready next count positive within taken steady spent =>
      rw [List.length_drop] at within
      refine .ready ⟨?_, holds.within2, holds.room, steady, holds.steady2, before, joined, ?_, sent2⟩ rfl
        rfl ?_ (fun _ => ?_) (Nat.add_le_add_right spent _)
      · show this.written1 + count ≤ this.buf.length
        omega
      · show written next = start1 ++ before ++ this.buf.take (this.written1 + count)
        rw [taken, sent1, List.append_assoc, take_more]
      · show (this.buf.length - (this.written1 + count)) + (this.buf.length - this.written2) ≤
          (this.buf.length - this.written1) + (this.buf.length - this.written2)
        omega
      · show (this.buf.length - (this.written1 + count)) + (this.buf.length - this.written2) <
          (this.buf.length - this.written1) + (this.buf.length - this.written2)
        omega
    | @pending next same steady less =>
      refine .pending ⟨holds.within1, holds.within2, holds.room, steady, holds.steady2, before, joined,
        ?_, sent2⟩ rfl (Nat.add_lt_add_right less _)
      show written next = _
      rw [same, sent1]

omit [LawfulPatience W1] in
/-- Offering the buffer to the second writer. -/
theorem offer2_offers (holds : Holds start1 start2 accepted this) :
    Offers start1 start2 accepted this (this.written2 < this.buf.length) this.offer2 := by
  obtain ⟨before, joined, sent1, sent2⟩ := holds.sent
  rw [offer2]
  split
  case isFalse done =>
    exact .ready holds rfl rfl (Nat.le_refl _) (fun more => absurd more done) (Nat.le_refl _)
  case isTrue more =>
    have some : this.buf.drop this.written2 ≠ [] := by
      intro none
      exact absurd (List.drop_eq_nil_iff.mp none) (Nat.not_le_of_lt more)
    have wrote := pollWrite_writes holds.steady2 some
    generalize Harmonia.pollWrite this.writer2 (this.buf.drop this.written2) = result at wrote
    cases wrote with
    | @ready next count positive within taken steady spent =>
      rw [List.length_drop] at within
      refine .ready ⟨holds.within1, ?_, holds.room, holds.steady1, steady, before, joined, sent1, ?_⟩ rfl
        rfl ?_ (fun _ => ?_) (Nat.add_le_add_left spent _)
      · show this.written2 + count ≤ this.buf.length
        omega
      · show written next = start2 ++ before ++ this.buf.take (this.written2 + count)
        rw [taken, sent2, List.append_assoc, take_more]
      · show (this.buf.length - this.written1) + (this.buf.length - (this.written2 + count)) ≤
          (this.buf.length - this.written1) + (this.buf.length - this.written2)
        omega
      · show (this.buf.length - this.written1) + (this.buf.length - (this.written2 + count)) <
          (this.buf.length - this.written1) + (this.buf.length - this.written2)
        omega
    | @pending next same steady less =>
      refine .pending ⟨holds.within1, holds.within2, holds.room, holds.steady1, steady, before, joined,
        sent1, ?_⟩ rfl (Nat.add_lt_add_left less _)
      show written next = _
      rw [same, sent2]

/-- What a flush of the buffer does: it is done when both writers have taken everything. -/
inductive Empties (start1 start2 accepted : Bytes) (this : TeeWriter W1 W2) :
    Poll Unit × TeeWriter W1 W2 → Prop
  | ready {next : TeeWriter W1 W2} (holds : Holds start1 start2 accepted next) (none : next.buf = [])
    (size : next.capacity = this.capacity) (spent : next.waits ≤ this.waits) :
    Empties start1 start2 accepted this (.ready (), next)
  | pending {next : TeeWriter W1 W2} (holds : Holds start1 start2 accepted next)
    (size : next.capacity = this.capacity) (less : next.waits < this.waits) :
    Empties start1 start2 accepted this (.pending, next)

omit [LawfulPatience W1] [LawfulPatience W2] in
/-- A flush that goes on from where an offer left the writer. -/
theorem Empties.of_next {next : TeeWriter W1 W2} {result : Poll Unit × TeeWriter W1 W2}
    (size : next.capacity = this.capacity) (spent : next.waits ≤ this.waits)
    (later : Empties start1 start2 accepted next result) : Empties start1 start2 accepted this result := by
  cases later with
  | ready holds none size' spent' => exact .ready holds none (size'.trans size) (Nat.le_trans spent' spent)
  | pending holds size' less => exact .pending holds (size'.trans size) (Nat.lt_of_lt_of_le less spent)

/-- The loop of a flush: each round takes something of the buffer. -/
theorem flushLoop_empties (rounds : Nat) (holds : Holds start1 start2 accepted this)
    (enough : this.owed < rounds) : Empties start1 start2 accepted this (this.flushLoop rounds) := by
  induction rounds generalizing this with
  | zero => exact absurd enough (Nat.not_lt_zero _)
  | succ rounds ih =>
    rw [flushLoop]
    split
    case isFalse done =>
      obtain ⟨before, joined, sent1, sent2⟩ := holds.sent
      have all1 : this.buf.take this.written1 = this.buf := List.take_of_length_le (by omega)
      have all2 : this.buf.take this.written2 = this.buf := List.take_of_length_le (by omega)
      refine .ready ⟨Nat.le_refl _, Nat.le_refl _, Nat.zero_le _, holds.steady1, holds.steady2,
        accepted, (List.append_nil _).symm, ?_, ?_⟩ rfl rfl (Nat.le_refl _)
      · show written this.writer1 = start1 ++ accepted ++ []
        rw [sent1, all1, List.append_assoc, ← joined, List.append_nil]
      · show written this.writer2 = start2 ++ accepted ++ []
        rw [sent2, all2, List.append_assoc, ← joined, List.append_nil]
    case isTrue more =>
      by_cases behind : this.written1 < this.buf.length
      · have first := offer1_offers holds
        generalize this.offer1 = result at first
        cases first with
        | pending holds' size less => exact .pending holds' size less
        | @ready middle holds' same size other less spent =>
          have second := offer2_offers holds'
          have taken := less behind
          simp only
          generalize middle.offer2 = result at second
          cases second with
          | pending holds'' size' less' =>
            exact .pending holds'' (size'.trans size) (Nat.lt_of_lt_of_le less' spent)
          | @ready next holds'' same' size' other' less' spent' =>
            have later := ih holds'' (by omega)
            exact .of_next (size'.trans size) (Nat.le_trans spent' spent) later
      · -- The first writer has taken everything, so the second has not.
        have done : this.offer1 = (.ready (), this) := if_neg behind
        have second := offer2_offers holds
        rw [done]
        simp only
        generalize this.offer2 = result at second
        cases second with
        | pending holds' size less => exact .pending holds' size less
        | @ready next holds' same size other less spent =>
          have taken := less (more.resolve_left behind)
          have later := ih holds' (by omega)
          exact .of_next size spent later

/-- A flush of the buffer. -/
theorem pollFlushBuf_empties {rounds : Nat} (holds : Holds start1 start2 accepted this)
    (enough : 2 * this.capacity < rounds) :
    Empties start1 start2 accepted this (this.pollFlushBuf rounds) := by
  rw [pollFlushBuf]
  split
  case isTrue none => exact .ready holds none rfl (Nat.le_refl _)
  case isFalse =>
    have room := holds.room
    apply flushLoop_empties rounds holds
    show (this.buf.length - this.written1) + (this.buf.length - this.written2) < rounds
    omega

omit [PatientWrite W1] [PatientWrite W2] [LawfulPatience W1] [LawfulPatience W2] in
/-- Accepting what fits. -/
theorem accept_holds (holds : Holds start1 start2 accepted this) (buf : Bytes) :
    Holds start1 start2 (accepted ++ buf.take (min buf.length (this.capacity - this.buf.length)))
      (this.accept buf).2 := by
  obtain ⟨before, joined, sent1, sent2⟩ := holds.sent
  have room := holds.room
  have within1 := holds.within1
  have within2 := holds.within2
  have short : (buf.take (min buf.length (this.capacity - this.buf.length))).length ≤
      this.capacity - this.buf.length := by
    rw [List.length_take]
    omega
  refine ⟨?_, ?_, ?_, holds.steady1, holds.steady2, before, ?_, ?_, ?_⟩
  · show this.written1 ≤ (this.buf ++ _).length
    rw [List.length_append]
    omega
  · show this.written2 ≤ (this.buf ++ _).length
    rw [List.length_append]
    omega
  · show (this.buf ++ _).length ≤ this.capacity
    rw [List.length_append]
    omega
  · show _ = before ++ (this.buf ++ _)
    rw [joined, List.append_assoc]
  · show written this.writer1 = start1 ++ before ++ (this.buf ++ _).take this.written1
    rw [sent1, List.take_append_of_le_length within1]
  · show written this.writer2 = start2 ++ before ++ (this.buf ++ _).take this.written2
    rw [sent2, List.take_append_of_le_length within2]

/-- What `poll_write` does. A slice that is smaller than the buffer is accepted whole; of another one
only what there is room for, and at once. -/
inductive Accepts (start1 start2 accepted data : Bytes) (this : TeeWriter W1 W2) :
    Poll Nat × TeeWriter W1 W2 → Prop
  | ready {next : TeeWriter W1 W2} {count : Nat}
    (holds : Holds start1 start2 (accepted ++ data.take count) next)
    (size : next.capacity = this.capacity) (spent : next.waits ≤ this.waits)
    (small : data.length < this.capacity → count = data.length)
    (large : this.capacity ≤ data.length →
      count = this.capacity - this.buf.length ∧ next.buf.length = this.capacity) :
    Accepts start1 start2 accepted data this (.ready count, next)
  | pending {next : TeeWriter W1 W2} (holds : Holds start1 start2 accepted next)
    (size : next.capacity = this.capacity) (less : next.waits < this.waits)
    (smaller : data.length < this.capacity) :
    Accepts start1 start2 accepted data this (.pending, next)

/-- Writing something. -/
theorem pollWrite_accepts {rounds : Nat} (holds : Holds start1 start2 accepted this) (data : Bytes)
    (enough : 2 * this.capacity < rounds) :
    Accepts start1 start2 accepted data this (this.pollWrite rounds data) := by
  have room := holds.room
  rw [pollWrite]
  split
  case isFalse large =>
    have rem : min data.length (this.capacity - this.buf.length) = this.capacity - this.buf.length := by
      omega
    have holds' := accept_holds holds data
    refine .ready holds' rfl (Nat.le_refl _) (fun small => absurd small large) fun _ => ⟨rem, ?_⟩
    show (this.buf ++ data.take (min data.length (this.capacity - this.buf.length))).length = this.capacity
    rw [List.length_append, List.length_take]
    omega
  case isTrue small =>
    split
    case isFalse fits =>
      have rem : min data.length (this.capacity - this.buf.length) = data.length := by omega
      exact .ready (accept_holds holds data) rfl (Nat.le_refl _) (fun _ => rem)
        fun large => absurd small (Nat.not_lt.mpr large)
    case isTrue tight =>
      have flushed := pollFlushBuf_empties holds enough
      generalize this.pollFlushBuf rounds = result at flushed
      cases flushed with
      | pending holds' size less => exact .pending holds' size less small
      | @ready next holds' none size spent =>
        have rem : min data.length (next.capacity - next.buf.length) = data.length := by
          rw [none, size, List.length_nil]
          omega
        exact .ready (accept_holds holds' data) size spent (fun _ => rem)
          fun large => absurd small (Nat.not_lt.mpr large)

/-- What flushing both writers does. -/
theorem settleBoth_empties (holds : Holds start1 start2 accepted this) (none : this.buf = []) :
    Empties start1 start2 accepted this this.settleBoth := by
  obtain ⟨before, joined, sent1, sent2⟩ := holds.sent
  rw [settleBoth]
  have first := pollFlush_settles holds.steady1
  generalize pollFlush this.writer1 = result at first
  cases first with
  | @pending next same steady less =>
    exact .pending ⟨holds.within1, holds.within2, holds.room, steady, holds.steady2, before, joined,
      same.trans sent1, sent2⟩ rfl (Nat.add_lt_add_right less _)
  | @ready next same steady spent =>
    have second := pollFlush_settles holds.steady2
    simp only
    generalize pollFlush this.writer2 = result at second
    cases second with
    | @pending last same' steady' less =>
      exact .pending ⟨holds.within1, holds.within2, holds.room, steady, steady', before, joined,
        same.trans sent1, same'.trans sent2⟩ rfl (Nat.add_lt_add_of_le_of_lt spent less)
    | @ready last same' steady' spent' =>
      exact .ready ⟨holds.within1, holds.within2, holds.room, steady, steady', before, joined,
        same.trans sent1, same'.trans sent2⟩ none rfl (Nat.add_le_add spent spent')

/-- `poll_flush`. -/
theorem pollFlushAll_empties {rounds : Nat} (holds : Holds start1 start2 accepted this)
    (enough : 2 * this.capacity < rounds) :
    Empties start1 start2 accepted this (this.pollFlushAll rounds) := by
  have flushed := pollFlushBuf_empties holds enough
  rw [pollFlushAll]
  generalize this.pollFlushBuf rounds = result at flushed
  cases flushed with
  | pending holds' size less => exact .pending holds' size less
  | ready holds' none size spent => exact .of_next size spent (settleBoth_empties holds' none)

/-- `poll_shutdown`. -/
theorem pollShutdown_empties {rounds : Nat} (holds : Holds start1 start2 accepted this)
    (enough : 2 * this.capacity < rounds) :
    Empties start1 start2 accepted this (this.pollShutdown rounds) := by
  have flushed := pollFlushAll_empties holds enough
  rw [pollShutdown]
  generalize this.pollFlushAll rounds = result at flushed
  cases flushed with
  | pending holds' size less => exact .pending holds' size less
  | ready holds' none size spent => exact .of_next size spent (settleBoth_empties holds' none)

omit [PatientWrite W1] [PatientWrite W2] [LawfulPatience W1] [LawfulPatience W2] in
/-- Both writers have received the beginning of what was accepted. -/
theorem Holds.begins (holds : Holds start1 start2 accepted this) :
    written this.writer1 <+: start1 ++ accepted ∧ written this.writer2 <+: start2 ++ accepted := by
  obtain ⟨before, rfl, sent1, sent2⟩ := holds.sent
  constructor
  · refine ⟨this.buf.drop this.written1, ?_⟩
    rw [sent1, List.append_assoc, List.append_assoc, List.take_append_drop]
  · refine ⟨this.buf.drop this.written2, ?_⟩
    rw [sent2, List.append_assoc, List.append_assoc, List.take_append_drop]

omit [PatientWrite W1] [PatientWrite W2] [LawfulPatience W1] [LawfulPatience W2] in
/-- With nothing in the buffer, both writers have received all that was accepted. -/
theorem Holds.whole (holds : Holds start1 start2 accepted this) (none : this.buf = []) :
    written this.writer1 = start1 ++ accepted ∧ written this.writer2 = start2 ++ accepted := by
  obtain ⟨before, joined, sent1, sent2⟩ := holds.sent
  rw [none, List.append_nil] at joined
  rw [none, List.take_nil, List.append_nil] at sent1 sent2
  exact ⟨joined ▸ sent1, joined ▸ sent2⟩

end Patient

/-! ## Writing everything -/

section WriteAll

variable [AsyncWrite W1] [AsyncWrite W2]

/-- The error of `write_all` when nothing is accepted. -/
def noProgress : IoError := ⟨.writeZero, "write zero"⟩

/-- `write_all`: write until nothing is left. -/
def writeAll (rounds patience : Nat) : Nat → Bytes → TeeWriter W1 W2 → Poll Unit × TeeWriter W1 W2
  | 0, _, this => (.panic, this)
  | turns + 1, data, this =>
    if data = [] then (.ready (), this)
    else
      match await (fun this => pollWrite rounds this data) patience this with
      | (.ready n, this) =>
        if n = 0 then (.error noProgress, this) else writeAll rounds patience turns (data.drop n) this
      | (.pending, this) => (.pending, this)
      | (.error error, this) => (.error error, this)
      | (.panic, this) => (.panic, this)

/-- `write_all`, and then `flush`. Every turn of the former takes one byte at least. -/
def writeFlush (rounds patience : Nat) (data : Bytes) (this : TeeWriter W1 W2) :
    Poll Unit × TeeWriter W1 W2 :=
  match this.writeAll rounds patience (data.length + 1) data with
  | (.ready _, this) => await (pollFlushAll rounds) patience this
  | result => result

variable [SteadyWrite W1] [SteadyWrite W2] [PatientWrite W1] [PatientWrite W2] [LawfulPatience W1]
  [LawfulPatience W2] {start1 start2 accepted : Bytes} {rounds patience : Nat}

/-- Waiting for a slice to be accepted that is smaller than the buffer. -/
theorem await_small {this : TeeWriter W1 W2} (holds : Holds start1 start2 accepted this) {data : Bytes}
    (small : data.length < this.capacity) (enough : 2 * this.capacity < rounds)
    (patient : this.waits < patience) :
    ∃ next, await (fun this => pollWrite rounds this data) patience this = (.ready data.length, next) ∧
      Holds start1 start2 (accepted ++ data) next ∧ next.capacity = this.capacity ∧
      next.waits ≤ this.waits := by
  induction patience generalizing this with
  | zero => exact absurd patient (Nat.not_lt_zero _)
  | succ patience ih =>
    have accepts := pollWrite_accepts holds data enough
    rw [await]
    generalize this.pollWrite rounds data = result at accepts
    cases accepts with
    | @ready next count holds' size spent whole _ =>
      obtain rfl := whole small
      rw [List.take_length] at holds'
      exact ⟨next, rfl, holds', size, spent⟩
    | @pending next holds' size less _ =>
      rw [← size] at small enough
      obtain ⟨last, awaited, holds'', size', spent⟩ := ih holds' small enough (by omega)
      exact ⟨last, awaited, holds'', size'.trans size, by omega⟩

/-- Of a slice that is at least as large as the buffer, what there is room for is accepted at once. -/
theorem await_large {this : TeeWriter W1 W2} (holds : Holds start1 start2 accepted this) {data : Bytes}
    (large : this.capacity ≤ data.length) (enough : 2 * this.capacity < rounds) (patience : Nat) :
    ∃ next, await (fun this => pollWrite rounds this data) (patience + 1) this =
        (.ready (this.capacity - this.buf.length), next) ∧
      Holds start1 start2 (accepted ++ data.take (this.capacity - this.buf.length)) next ∧
      next.capacity = this.capacity ∧ next.buf.length = this.capacity ∧ next.waits ≤ this.waits := by
  have accepts := pollWrite_accepts holds data enough
  rw [await]
  generalize this.pollWrite rounds data = result at accepts
  cases accepts with
  | @ready next count holds' size spent _ most =>
    obtain ⟨rfl, full⟩ := most large
    exact ⟨next, rfl, holds', size, full, spent⟩
  | pending _ _ _ smaller => exact absurd smaller (Nat.not_lt.mpr large)

/-- Waiting for a flush. -/
theorem await_flush {this : TeeWriter W1 W2} (holds : Holds start1 start2 accepted this)
    (enough : 2 * this.capacity < rounds) (patient : this.waits < patience) :
    ∃ next, await (pollFlushAll rounds) patience this = (.ready (), next) ∧
      Holds start1 start2 accepted next ∧ next.buf = [] := by
  induction patience generalizing this with
  | zero => exact absurd patient (Nat.not_lt_zero _)
  | succ patience ih =>
    have empties := pollFlushAll_empties holds enough
    rw [await]
    generalize this.pollFlushAll rounds = result at empties
    cases empties with
    | ready holds' none size spent => exact ⟨_, rfl, holds', none⟩
    | pending holds' size less => exact ih holds' (size ▸ enough) (by omega)

/-- `write_all` of what is smaller than the buffer. -/
theorem writeAll_small {this : TeeWriter W1 W2} (holds : Holds start1 start2 accepted this)
    {data : Bytes} (small : data.length < this.capacity) (enough : 2 * this.capacity < rounds)
    (patient : this.waits < patience) (turns : Nat) :
    ∃ next, this.writeAll rounds patience (turns + 2) data = (.ready (), next) ∧
      Holds start1 start2 (accepted ++ data) next ∧ next.capacity = this.capacity ∧
      next.waits ≤ this.waits := by
  rw [writeAll]
  split
  case isTrue none =>
    rw [none, List.append_nil]
    exact ⟨this, rfl, holds, rfl, Nat.le_refl _⟩
  case isFalse some =>
    obtain ⟨next, awaited, holds', size, spent⟩ := await_small holds small enough patient
    have positive : ¬ data.length = 0 := fun none => some (List.eq_nil_of_length_eq_zero none)
    refine ⟨next, ?_, holds', size, spent⟩
    rw [awaited]
    simp only [if_neg positive, List.drop_length, writeAll, ↓reduceIte]

/-- `write_all` succeeds as long as the buffer does not get full twice. -/
theorem writeFlush_succeeds {this : TeeWriter W1 W2} (holds : Holds start1 start2 accepted this)
    {data : Bytes} (fits : this.buf.length + data.length < 2 * this.capacity)
    (enough : 2 * this.capacity < rounds) (patient : this.waits < patience) :
    ∃ next, this.writeFlush rounds patience data = (.ready (), next) ∧
      Holds start1 start2 (accepted ++ data) next ∧ next.buf = [] := by
  have wrote : ∃ next, this.writeAll rounds patience (data.length + 1) data = (.ready (), next) ∧
      Holds start1 start2 (accepted ++ data) next ∧ next.capacity = this.capacity ∧
      next.waits ≤ this.waits := by
    by_cases none : data = []
    · subst none
      rw [List.append_nil]
      exact ⟨this, rfl, holds, rfl, Nat.le_refl _⟩
    · have length := List.length_pos_iff.mpr none
      obtain ⟨turns, shape⟩ := Nat.exists_eq_succ_of_ne_zero (Nat.pos_iff_ne_zero.mp length)
      by_cases small : data.length < this.capacity
      · rw [shape]
        exact writeAll_small holds small enough patient turns
      · -- The buffer is filled first, and the rest is smaller than it.
        have room := holds.room
        obtain ⟨more, rfl⟩ := Nat.exists_eq_succ_of_ne_zero
          (Nat.pos_iff_ne_zero.mp (Nat.lt_of_le_of_lt (Nat.zero_le _) patient))
        obtain ⟨next, awaited, holds', size, full, spent⟩ :=
          await_large holds (Nat.le_of_not_lt small) enough more
        have positive : ¬ this.capacity - this.buf.length = 0 := by omega
        have rest : (data.drop (this.capacity - this.buf.length)).length < next.capacity := by
          rw [List.length_drop]
          omega
        by_cases last : turns = 0
        · -- There is one byte, and the buffer has no more room than that.
          have one : data.drop (this.capacity - this.buf.length) = [] :=
            List.drop_eq_nil_iff.mpr (by omega)
          have all : data.take (this.capacity - this.buf.length) = data :=
            List.take_of_length_le (by omega)
          rw [all] at holds'
          refine ⟨next, ?_, holds', size, spent⟩
          rw [writeAll, if_neg none, awaited, shape]
          simp only [if_neg positive, one, writeAll, ↓reduceIte]
        · obtain ⟨fewer, rfl⟩ := Nat.exists_eq_succ_of_ne_zero last
          obtain ⟨final, wrote, holds'', size', spent'⟩ :=
            writeAll_small holds' rest (size ▸ enough) (Nat.lt_of_le_of_lt spent patient) fewer
          rw [List.append_assoc, List.take_append_drop] at holds''
          refine ⟨final, ?_, holds'', size'.trans size, Nat.le_trans spent' spent⟩
          rw [writeAll, if_neg none, awaited, shape]
          simp only [if_neg positive]
          exact wrote
  obtain ⟨next, wrote, holds', size, spent⟩ := wrote
  obtain ⟨last, flushed, holds'', none⟩ :=
    await_flush holds' (size ▸ enough) (Nat.lt_of_le_of_lt spent patient)
  refine ⟨last, ?_, holds'', none⟩
  rw [writeFlush, wrote]
  exact flushed

/-- Of a slice that is at least as large as the buffer nothing is accepted when the buffer is full. -/
theorem writeAll_full {this : TeeWriter W1 W2} (holds : Holds start1 start2 accepted this)
    {data : Bytes} (some : data ≠ []) (full : this.buf.length = this.capacity)
    (large : this.capacity ≤ data.length) (enough : 2 * this.capacity < rounds) (patience turns : Nat) :
    ∃ next, this.writeAll rounds (patience + 1) (turns + 1) data = (.error noProgress, next) := by
  obtain ⟨next, awaited, _⟩ := await_large holds large enough patience
  refine ⟨next, ?_⟩
  rw [writeAll, if_neg some, awaited, full, Nat.sub_self]
  rfl

/-- `write_all` fails when the buffer gets full twice. -/
theorem writeFlush_fails {this : TeeWriter W1 W2} (holds : Holds start1 start2 accepted this)
    {data : Bytes} (positive : 0 < this.capacity)
    (large : 2 * this.capacity ≤ this.buf.length + data.length) (enough : 2 * this.capacity < rounds)
    (patience : Nat) :
    ∃ next, this.writeFlush rounds (patience + 1) data = (.error noProgress, next) := by
  have room := holds.room
  have some : data ≠ [] := by
    rintro rfl
    simp only [List.length_nil] at large
    omega
  have failed : ∃ next, this.writeAll rounds (patience + 1) (data.length + 1) data =
      (.error noProgress, next) := by
    by_cases full : this.buf.length = this.capacity
    · exact writeAll_full holds some full (by omega) enough patience data.length
    · have large' : this.capacity ≤ data.length := by omega
      obtain ⟨next, awaited, holds', size, full', _⟩ := await_large holds large' enough patience
      have count : ¬ this.capacity - this.buf.length = 0 := by omega
      have length : (data.drop (this.capacity - this.buf.length)).length =
          data.length - (this.capacity - this.buf.length) := List.length_drop
      have more : data.drop (this.capacity - this.buf.length) ≠ [] := by
        apply List.length_pos_iff.mp
        omega
      obtain ⟨turns, shape⟩ := Nat.exists_eq_succ_of_ne_zero
        (Nat.pos_iff_ne_zero.mp (List.length_pos_iff.mpr some))
      have large' : next.capacity ≤ (data.drop (this.capacity - this.buf.length)).length := by
        rw [length]
        omega
      obtain ⟨last, failed⟩ := writeAll_full holds' more (full'.trans size.symm) large'
        (size ▸ enough) patience turns
      refine ⟨last, ?_⟩
      rw [writeAll, if_neg some, awaited, shape]
      simp only [if_neg count]
      exact failed
  obtain ⟨next, failed⟩ := failed
  refine ⟨next, ?_⟩
  rw [writeFlush, failed]

/-- The states of a writer that has been written to, flushed and shut down in some order, with all that
was accepted. -/
inductive Reaches (writer1 : W1) (writer2 : W2) (capacity rounds : Nat) : Bytes → TeeWriter W1 W2 → Prop
  | new : Reaches writer1 writer2 capacity rounds [] (.new writer1 writer2 capacity)
  | write {accepted data : Bytes} {this next : TeeWriter W1 W2} {count : Nat}
    (before : Reaches writer1 writer2 capacity rounds accepted this)
    (polled : this.pollWrite rounds data = (.ready count, next)) :
    Reaches writer1 writer2 capacity rounds (accepted ++ data.take count) next
  | refuse {accepted data : Bytes} {this next : TeeWriter W1 W2} {answer : Poll Nat}
    (before : Reaches writer1 writer2 capacity rounds accepted this)
    (polled : this.pollWrite rounds data = (answer, next)) (refused : ∀ count, answer ≠ .ready count) :
    Reaches writer1 writer2 capacity rounds accepted next
  | flush {accepted : Bytes} {this next : TeeWriter W1 W2} {answer : Poll Unit}
    (before : Reaches writer1 writer2 capacity rounds accepted this)
    (polled : this.pollFlushAll rounds = (answer, next)) :
    Reaches writer1 writer2 capacity rounds accepted next
  | shutdown {accepted : Bytes} {this next : TeeWriter W1 W2} {answer : Poll Unit}
    (before : Reaches writer1 writer2 capacity rounds accepted this)
    (polled : this.pollShutdown rounds = (answer, next)) :
    Reaches writer1 writer2 capacity rounds accepted next

omit [PatientWrite W1] [PatientWrite W2] [LawfulPatience W1] [LawfulPatience W2] in
/-- A new writer has accepted nothing. -/
theorem new_holds {writer1 : W1} {writer2 : W2} (steady1 : Steady writer1) (steady2 : Steady writer2)
    (capacity : Nat) :
    Holds (written writer1) (written writer2) [] (TeeWriter.new writer1 writer2 capacity) :=
  ⟨Nat.le_refl _, Nat.le_refl _, Nat.zero_le _, steady1, steady2, [], rfl, by simp [new], by simp [new]⟩

omit [LawfulPatience W1] [LawfulPatience W2] in
/-- A flush keeps what a writer holds. -/
theorem Empties.holds {this next : TeeWriter W1 W2} {answer : Poll Unit}
    (empties : Empties start1 start2 accepted this (answer, next)) :
    Holds start1 start2 accepted next ∧ next.capacity = this.capacity := by
  cases empties with
  | ready holds none size spent => exact ⟨holds, size⟩
  | pending holds size less => exact ⟨holds, size⟩

/-- In every state both writers have received the beginning of what was accepted. -/
theorem Reaches.holds {writer1 : W1} {writer2 : W2} {capacity : Nat} (steady1 : Steady writer1)
    (steady2 : Steady writer2) (enough : 2 * capacity < rounds) {this : TeeWriter W1 W2}
    (reaches : Reaches writer1 writer2 capacity rounds accepted this) :
    Holds (written writer1) (written writer2) accepted this ∧ this.capacity = capacity := by
  induction reaches with
  | new => exact ⟨new_holds steady1 steady2 capacity, rfl⟩
  | @write _ data _ _ _ _ polled ih =>
    obtain ⟨holds, size⟩ := ih
    have accepts := pollWrite_accepts holds data (size ▸ enough)
    rw [polled] at accepts
    cases accepts with
    | ready holds' size' _ _ _ => exact ⟨holds', size'.trans size⟩
  | @refuse _ data _ _ _ _ polled refused ih =>
    obtain ⟨holds, size⟩ := ih
    have accepts := pollWrite_accepts holds data (size ▸ enough)
    rw [polled] at accepts
    cases accepts with
    | ready holds' size' _ _ _ => exact absurd rfl (refused _)
    | pending holds' size' _ _ => exact ⟨holds', size'.trans size⟩
  | flush _ polled ih =>
    obtain ⟨holds, size⟩ := ih
    have empties := pollFlushAll_empties holds (size ▸ enough)
    rw [polled] at empties
    exact ⟨empties.holds.1, empties.holds.2.trans size⟩
  | shutdown _ polled ih =>
    obtain ⟨holds, size⟩ := ih
    have empties := pollShutdown_empties holds (size ▸ enough)
    rw [polled] at empties
    exact ⟨empties.holds.1, empties.holds.2.trans size⟩

/-- Both writers are written to faithfully from a state on, and some bytes can be written whole: each
writer has received the beginning of what was accepted, a flush that is done delivers all of it, and
`write_all` and `flush` succeed if one is patient enough. -/
structure Duplicates (start1 start2 accepted : Bytes) (rounds : Nat) (this : TeeWriter W1 W2)
    (data : Bytes) : Prop where
  /-- Each writer has received the beginning of what was accepted. -/
  begins : written this.writer1 <+: start1 ++ accepted ∧ written this.writer2 <+: start2 ++ accepted
  /-- A flush that is done delivers all of it. -/
  whole : ∀ next, this.pollFlushAll rounds = (.ready (), next) →
    written next.writer1 = start1 ++ accepted ∧ written next.writer2 = start2 ++ accepted
  /-- Some bytes can be written whole. -/
  writes : ∃ patience next, this.writeFlush rounds patience data = (.ready (), next)

/-- In every state that is reached, the duplication is faithful and some bytes can be written whole
exactly if they do not fill the buffer a second time. -/
theorem duplicates_iff {writer1 : W1} {writer2 : W2} {capacity : Nat} (steady1 : Steady writer1)
    (steady2 : Steady writer2) (positive : 0 < capacity) (enough : 2 * capacity < rounds)
    {this : TeeWriter W1 W2} (reaches : Reaches writer1 writer2 capacity rounds accepted this)
    (data : Bytes) :
    Duplicates (written writer1) (written writer2) accepted rounds this data ↔
      this.buf.length + data.length < 2 * capacity := by
  obtain ⟨holds, rfl⟩ := reaches.holds steady1 steady2 enough
  constructor
  · intro duplicates
    by_contra large
    obtain ⟨patience, next, wrote⟩ := duplicates.writes
    cases patience with
    | zero =>
      have some : data ≠ [] := by
        rintro rfl
        have room := holds.room
        simp only [List.length_nil] at large
        omega
      rw [writeFlush, writeAll, if_neg some] at wrote
      cases wrote
    | succ patience =>
      obtain ⟨other, failed⟩ := writeFlush_fails holds positive (Nat.le_of_not_lt large) enough patience
      rw [failed] at wrote
      cases wrote
  · intro fits
    refine ⟨holds.begins, ?_, ?_⟩
    · intro next flushed
      have empties := pollFlushAll_empties holds enough
      rw [flushed] at empties
      cases empties with
      | ready holds' none _ _ => exact holds'.whole none
    · obtain ⟨next, wrote, _⟩ := writeFlush_succeeds holds fits enough (Nat.lt_succ_self this.waits)
      exact ⟨_, next, wrote⟩

end WriteAll

/-- A sink that takes a byte at a time. -/
def byteSink : Sink := ⟨[], [], 0⟩

/-- A buffer of four bytes, and a slice of six. -/
theorem duplicates_iff_sample :
    Duplicates [] [] [] 9 (TeeWriter.new byteSink byteSink 4) [1, 2, 3, 4, 5, 6] := by
  have steady : Steady byteSink := (by decide : byteSink.Steady)
  have both := duplicates_iff steady steady (by decide : 0 < 4) (by decide : 2 * 4 < 9) .new
    [1, 2, 3, 4, 5, 6]
  exact both.mpr (by decide : 0 + 6 < 2 * 4)

/-- A slice twice as large as the buffer of a new writer cannot be written whole. -/
theorem large_slice_fails : byteSink.Steady ∧ ∀ patience, ∃ next,
    (TeeWriter.new byteSink byteSink 32768).writeFlush 65537 (patience + 1) (List.replicate 65536 0) =
      (.error noProgress, next) := by
  have steady : Steady byteSink := (by decide : byteSink.Steady)
  refine ⟨steady, fun patience => ?_⟩
  refine writeFlush_fails (new_holds steady steady 32768) (by decide) ?_ (by decide) patience
  rw [List.length_replicate]
  decide

end TeeWriter

end Harmonia
