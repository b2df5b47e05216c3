import Harmonia.Io.BytesReader
import Harmonia.Nar.PaddedReader

/-!
# Reading file contents

The two ways to read from a `PaddedReader`. Through `poll_fill_buf` and `consume`, in whatever order
and however little is consumed at a time, the contents come as they are, and their end shows when the
archive stands behind the padding. Through `poll_read` they come if they fit into the buffer of one
call and the archive is not pending inside them.
-/

namespace Harmonia.Nar

namespace PaddedReader

section Session

variable {R : Type} [AsyncBytesRead R]

/-- Contents that are being read: the reader, what is left of the last buffer, and what was consumed. -/
structure Reading (R : Type) where
  /-- The reader. -/
  this : PaddedReader R
  /-- The last buffer, less what was consumed of it. -/
  shown : Bytes
  /-- What was consumed. -/
  delivered : Bytes

/-- What calls of `poll_fill_buf` and `consume` can make of a reader. -/
inductive Reached (start : PaddedReader R) : Reading R → Prop
  | start : Reached start ⟨start, [], []⟩
  | filled {reading : Reading R} {buf : Bytes} {next : PaddedReader R} (reached : Reached start reading)
    (polled : reading.this.pollFill = (.ready buf, next)) :
    Reached start ⟨next, buf, reading.delivered⟩
  | pending {reading : Reading R} {next : PaddedReader R} (reached : Reached start reading)
    (polled : reading.this.pollFill = (.pending, next)) :
    Reached start ⟨next, reading.shown, reading.delivered⟩
  | consumed {reading : Reading R} {amt : Nat} {next : PaddedReader R} (reached : Reached start reading)
    (within : amt ≤ reading.shown.length) (took : reading.this.consumePadded amt = some next) :
    Reached start ⟨next, reading.shown.drop amt, reading.delivered ++ reading.shown.take amt⟩

/-- Nothing is forced when nothing is missing. -/
theorem forceUntil_enough {need : Nat} (fuel : Nat) (reader : R) {buf : Bytes}
    (enough : need ≤ buf.length) : forceUntil need fuel reader buf = (.ready buf, reader) := by
  unfold forceUntil
  rw [if_pos enough]

variable [LawfulBytesRead R]

/-- A reader that is pending shows what it showed. -/
theorem shows_pending {this next : PaddedReader R} (sound : Sound this) {shown : Bytes}
    (some : shown ≠ []) (shows_ : this.Shows shown) (polled : this.pollFill = (.pending, next)) :
    next.Shows shown := by
  obtain ⟨reader, trailer, padding, state⟩ := this
  have filled := fills sound.valid
  change view.Fills reader (pollFillBuf reader) at filled
  cases state with
  | content rem =>
    obtain ⟨shape, stands⟩ := shows_
    have visible : view.visible reader ≠ [] := by
      intro none
      apply some
      rw [shape, none, List.take_nil]
    have counts : rem.toNat + alignNat trailer < 2 ^ 64 := sound.counts
    have tail := le_alignNat trailer
    have known : remainingUsize ⟨reader, trailer, padding, .content rem⟩ =
        .some (rem.toNat, rem.toNat + trailer, rem.toNat + alignNat trailer) :=
      if_pos ⟨show rem.toNat + trailer < 2 ^ 64 by omega, counts⟩
    simp only [pollFill, fillWith, pollContent, known] at polled
    generalize pollFillBuf reader = result at filled polled
    cases filled with
    | @ready after kept regular same bounded ends =>
      have same := same visible
      by_cases whole : rem.toNat ≤ (view.visible after).length
      · have enough : rem.toNat + alignNat trailer ≤ (view.visible after).length := by
          rw [same] at whole ⊢
          rcases stands with less | enough
          · exact absurd whole (Nat.not_le.mpr less)
          · exact enough
        -- Nothing is missing, so nothing is forced.
        have gathered := forceUntil_enough (rem.toNat + alignNat trailer + budget after) after enough
        have long : ¬ (view.visible after).length < rem.toNat + trailer := by omega
        simp only [if_pos whole, gathered, if_neg long] at polled
        cases polled
      · simp only [if_neg whole] at polled
        cases polled
    | @pending after kept regular same less =>
      cases polled
      refine ⟨?_, ?_⟩
      · show shown = (view.visible after).take _
        rw [same]
        exact shape
      · show (view.visible after).length < _ ∨ _ ≤ (view.visible after).length
        rw [same]
        exact stands
    | error => cases polled
  | readPadding start stop =>
    obtain ⟨rfl, shape, enough⟩ := shows_
    have small : trailer < 8 := sound.trailer
    have inside : start < trailer := sound.counts.1
    have enough : 8 - start ≤ (view.visible reader).length := enough
    have visible : view.visible reader ≠ [] := by
      intro none
      rw [none, List.length_nil] at enough
      omega
    simp only [pollFill, fillWith, remainingUsize] at polled
    rw [if_pos (Nat.le_of_lt inside)] at polled
    simp only at polled
    rw [readTail, if_neg (by omega), pollRead] at polled
    simp only at polled
    generalize pollFillBuf reader = result at filled polled
    cases filled with
    | @ready after kept regular same bounded ends =>
      have same := same visible
      have size : min (view.visible after).length (8 - start) = 8 - start := by
        rw [same]
        omega
      obtain ⟨last, took, _⟩ := consumes kept.valid (Nat.min_le_left (view.visible after).length (8 - start))
      have bytes : ((view.visible after).take (8 - start)).length = 8 - start := by
        rw [List.length_take, Nat.min_comm, size]
      have some : (view.visible after).take (8 - start) ≠ [] := by
        intro none
        rw [none, List.length_nil] at bytes
        omega
      rw [← same] at visible
      rw [size] at took
      simp only [if_neg visible, size, took, if_neg some, bytes] at polled
      unfold readTail at polled
      rw [if_pos (by omega)] at polled
      cases polled
    | @pending after kept regular same less =>
      cases polled
      refine ⟨rfl, ?_, ?_⟩
      · show shown = (view.visible after).take _
        rw [same]
        exact shape
      · show 8 - start ≤ (view.visible after).length
        rw [same]
        exact enough
    | error => cases polled
  | padding start =>
    have inside : start < trailer := sound.counts
    simp only [pollFill, fillWith, remainingUsize] at polled
    rw [if_pos (Nat.le_of_lt inside)] at polled
    cases polled
  | eof => cases polled

/-- Where reading stands: what was consumed and what is to come are the contents, and what is left of the last
buffer comes next. -/
structure Stands (start : PaddedReader R) (bound : Nat) (reading : Reading R) : Prop where
  /-- The reader. -/
  sound : Sound reading.this
  /-- The archive's reader. -/
  regular : view.Regular reading.this.reader
  /-- The bound on reads. -/
  chunk : view.chunk reading.this.reader ≤ bound
  /-- The limit of the buffer. -/
  limit : view.limit reading.this.reader = view.limit start.reader
  /-- The buffer. -/
  tame : reading.this.Tame bound
  /-- The contents. -/
  contents : reading.delivered ++ reading.this.remaining = start.remaining
  /-- What comes behind them. -/
  left : reading.this.left = start.left
  /-- They are all there. -/
  complete : reading.this.Complete
  /-- What is left of the last buffer. -/
  shows_ : reading.shown = [] ∨ reading.this.Shows reading.shown

section Run

variable {start : PaddedReader R} {bound : Nat} {reading : Reading R}

/-- Filling neither fails nor panics, and shows something unless the contents have ended. -/
theorem Stands.fill (stands : Stands start bound reading) (room : bound + 8 ≤ view.limit start.reader) :
    (∃ buf next, reading.this.pollFill = (.ready buf, next) ∧
      Stands start bound ⟨next, buf, reading.delivered⟩ ∧ buf <+: reading.this.remaining ∧
      (buf = [] ↔ reading.this.remaining = []) ∧
      (buf = [] → view.unread next.reader = start.left)) ∨
    ∃ next, reading.this.pollFill = (.pending, next) ∧
      Stands start bound ⟨next, reading.shown, reading.delivered⟩ ∧
      budget next.reader < budget reading.this.reader := by
  have poured := pollFill_pours stands.sound
  cases polled : reading.this.pollFill with
  | mk answer next =>
    rw [polled] at poured
    cases poured with
    | @ready _ buf keeps regular tame shows_ ends =>
      left
      have starts := shows_.starts keeps.sound
      rw [keeps.remaining] at starts
      have ended : buf = [] → reading.this.due = 0 := by
        intro nothing
        rcases ends nothing with zero | ⟨rem, content, positive, gone, _⟩
        · exact zero
        · have complete := stands.complete
          rw [Complete, gone, owed, content, List.length_nil] at complete
          simp only at complete
          omega
      have length := stands.sound.remaining_length stands.complete
      refine ⟨buf, next, rfl, ⟨keeps.sound, regular stands.regular, Nat.le_trans keeps.chunk stands.chunk,
        keeps.limit.trans stands.limit, tame stands.chunk stands.tame, ?_, keeps.left.trans stands.left,
        keeps.complete.mpr stands.complete, .inr shows_⟩, starts, ⟨?_, ?_⟩, ?_⟩
      · show reading.delivered ++ next.remaining = _
        rw [keeps.remaining]
        exact stands.contents
      · intro nothing
        rw [ended nothing] at length
        exact List.eq_nil_of_length_eq_zero length
      · intro none
        rw [none] at starts
        exact List.prefix_nil.mp starts
      · intro nothing
        have paid := keeps.sound.owed_zero (keeps.due.trans (ended nothing))
        rw [← stands.left, ← keeps.left, PaddedReader.left, paid, List.drop_zero]
    | pending keeps regular tame less =>
      right
      refine ⟨next, rfl, ⟨keeps.sound, regular stands.regular, Nat.le_trans keeps.chunk stands.chunk,
        keeps.limit.trans stands.limit, tame stands.chunk stands.tame, ?_, keeps.left.trans stands.left,
        keeps.complete.mpr stands.complete, ?_⟩, less⟩
      · show reading.delivered ++ next.remaining = _
        rw [keeps.remaining]
        exact stands.contents
      · by_cases none : reading.shown = []
        · exact .inl none
        · rcases stands.shows_ with nothing | shows_
          · exact absurd nothing none
          · exact .inr (shows_pending stands.sound none shows_ polled)
    | ended keeps short words kind => exact absurd stands.complete short
    | refused keeps words refuses large =>
      have larger := large stands.regular stands.chunk stands.tame
      rw [stands.limit] at larger
      omega
    | error keeps irregular => exact absurd stands.regular irregular

/-- What is left of the last buffer may be consumed, in whatever pieces. -/
theorem Stands.consume (stands : Stands start bound reading) {amt : Nat}
    (within : amt ≤ reading.shown.length) :
    ∃ next, reading.this.consumePadded amt = some next ∧
      Stands start bound ⟨next, reading.shown.drop amt, reading.delivered ++ reading.shown.take amt⟩ := by
  -- The next bytes to come are the ones that are consumed.
  have goes {next : PaddedReader R} (consumed : Consumed reading.this next amt)
      (starts : reading.shown <+: reading.this.remaining)
      (shows_ : reading.shown.drop amt = [] ∨ next.Shows (reading.shown.drop amt)) :
      Stands start bound ⟨next, reading.shown.drop amt, reading.delivered ++ reading.shown.take amt⟩ := by
    obtain ⟨more, joins⟩ := starts
    refine ⟨consumed.sound, consumed.regular stands.regular, Nat.le_trans consumed.chunk stands.chunk,
      consumed.limit.trans stands.limit, consumed.tame stands.tame, ?_, consumed.left.trans stands.left,
      consumed.complete.mpr stands.complete, shows_⟩
    show reading.delivered ++ reading.shown.take amt ++ next.remaining = _
    rw [consumed.remaining, ← joins, List.drop_append_of_le_length within, List.append_assoc,
      ← List.append_assoc (List.take _ _), List.take_append_drop, joins]
    exact stands.contents
  rcases stands.shows_ with nothing | shows_
  · have zero : amt = 0 := by
      rw [nothing] at within
      exact Nat.le_zero.mp within
    subst zero
    obtain ⟨next, took, consumed⟩ := consume_zero stands.sound
    refine ⟨next, took, goes consumed ?_ (.inl ?_)⟩
    · rw [nothing]
      exact List.nil_prefix
    · rw [nothing, List.drop_nil]
  · obtain ⟨next, took, consumed, shows'⟩ := consume_shown stands.sound shows_ within
    exact ⟨next, took, goes consumed (shows_.starts stands.sound) (.inr shows')⟩

/-- Every reading that is reached stands. -/
theorem Reached.stands (reached : Reached start reading) (fresh : Stands start bound ⟨start, [], []⟩)
    (room : bound + 8 ≤ view.limit start.reader) : Stands start bound reading := by
  induction reached with
  | start => exact fresh
  | filled reached polled ih =>
    rcases ih.fill room with ⟨buf, next, polled', stands, _⟩ | ⟨next, polled', _⟩
    · rw [polled] at polled'
      cases polled'
      exact stands
    · rw [polled] at polled'
      cases polled'
  | pending reached polled ih =>
    rcases ih.fill room with ⟨buf, next, polled', _⟩ | ⟨next, polled', stands, _⟩
    · rw [polled] at polled'
      cases polled'
    · rw [polled] at polled'
      cases polled'
      exact stands
  | consumed reached within took ih =>
    obtain ⟨next, took', stands⟩ := ih.consume within
    rw [took] at took'
    cases took'
    exact stands

end Run

/-- What is to come is no more than what the archive can give, and a word. -/
theorem remaining_covered {this : PaddedReader R} (sound : Sound this) :
    this.remaining.length ≤ 8 + budget this.reader := by
  have held := sound.held_length
  have covered := @covered R _ _ this.reader
  have ahead : this.remaining.length ≤ this.ahead.length := List.length_take_le' _ _
  rw [PaddedReader.ahead, List.length_append] at ahead
  omega

/-- Awaiting the drain, the archive comes to stand behind the padding. -/
theorem await_drains {fuel bound : Nat} (patience : Nat) {this : PaddedReader R} (sound : Sound this)
    (regular : view.Regular this.reader) (chunk : view.chunk this.reader ≤ bound)
    (tame : this.Tame bound) (room : bound + 8 ≤ view.limit this.reader) (complete : this.Complete)
    (enough : 8 + budget this.reader < fuel) (patient : budget this.reader < patience) :
    ∃ next, await (pollDrain fuel) patience this = (.ready (), next) ∧
      view.unread next.reader = this.left := by
  induction patience generalizing this with
  | zero => cases patient
  | succ patience ih =>
    have drains := pollDrain_drains fuel sound (Nat.lt_of_le_of_lt (remaining_covered sound) enough)
    unfold await
    generalize pollDrain fuel this = result at drains
    cases drains with
    | @ready next sound' regular' tame' whole cut chunk' limit spent => exact ⟨next, rfl, whole complete⟩
    | pending sound' regular' tame' left complete' lacks chunk' limit less =>
      obtain ⟨next, awaited, stands⟩ := ih sound' (regular' regular) (Nat.le_trans chunk' chunk)
        (tame' chunk tame) (limit ▸ room) (complete'.mpr complete) (by omega) (by omega)
      exact ⟨next, awaited, stands.trans left⟩
    | ended sound' short kind => exact absurd complete short
    | refused sound' refuses large =>
      have larger := large regular chunk tame
      omega
    | error sound' irregular => exact absurd regular irregular

/-- In every reading of contents that the archive has, what was consumed is the beginning of the contents.
Filling neither fails nor panics and shows what comes next, and nothing exactly when all the contents were
consumed; then the archive stands behind the padding. What was shown may be consumed. And at any time the
rest can be drained, whereupon the archive stands behind the padding too. -/
theorem contents_delivered {archive : R} {len : UInt64} (valid : view.Valid archive) (fits : Fits len)
    (whole : alignNat len.toNat ≤ (view.unread archive).length) (regular : view.Regular archive)
    (room : max (view.visible archive).length (view.chunk archive) + 8 ≤ view.limit archive)
    {reading : Reading R} (reached : Reached (new archive len) reading) :
    let contents := (view.unread archive).take len.toNat
    let behind := (view.unread archive).drop (alignNat len.toNat)
    reading.delivered <+: contents ∧
      ((∃ buf next, reading.this.pollFill = (.ready buf, next) ∧
          reading.delivered ++ buf <+: contents ∧ (buf = [] ↔ reading.delivered = contents) ∧
          (buf = [] → view.unread next.reader = behind)) ∨
        ∃ next, reading.this.pollFill = (.pending, next) ∧
          budget next.reader < budget reading.this.reader) ∧
      (∀ amt ≤ reading.shown.length, ∃ next, reading.this.consumePadded amt = some next) ∧
      ∀ fuel patience, 8 + budget reading.this.reader < fuel → budget reading.this.reader < patience →
        ∃ next, await (pollDrain fuel) patience reading.this = (.ready (), next) ∧
          view.unread next.reader = behind := by
  intro contents behind
  obtain ⟨sound, due, owed⟩ := new_sound valid fits
  have remaining : (new archive len).remaining = contents := by
    show ([] ++ view.unread archive).take (new archive len).due = _
    rw [List.nil_append, due]
  have left : (new archive len).left = behind := by
    show (view.unread archive).drop (new archive len).owed = _
    rw [owed]
  have complete : (new archive len).Complete := by
    show (new archive len).owed ≤ (view.unread archive).length
    rw [owed]
    exact whole
  have stands := reached.stands ⟨sound, regular, Nat.le_max_right _ _, rfl, .inl (Nat.le_max_left _ _),
    rfl, rfl, complete, .inl rfl⟩ room
  have joins := stands.contents
  rw [remaining] at joins
  refine ⟨⟨_, joins⟩, ?_, ?_, ?_⟩
  · rcases stands.fill room with ⟨buf, next, polled, _, starts, ends, stops⟩ | ⟨next, polled, _, less⟩
    · refine .inl ⟨buf, next, polled, ?_, ?_, ?_⟩
      · rw [← joins]
        exact (List.prefix_append_right_inj _).mpr starts
      · rw [ends, ← joins]
        exact List.self_eq_append_right.symm
      · rw [← left]
        exact stops
    · exact .inr ⟨next, polled, less⟩
  · intro amt within
    obtain ⟨next, took, _⟩ := stands.consume within
    exact ⟨next, took⟩
  · intro fuel patience enough patient
    have room' := room
    rw [← show view.limit (new archive len).reader = view.limit archive from rfl, ← stands.limit] at room'
    obtain ⟨next, awaited, stops⟩ := await_drains patience stands.sound stands.regular stands.chunk
      stands.tame room' stands.complete enough patient
    refine ⟨next, awaited, ?_⟩
    rw [stops, stands.left, left]

end Session

/-- An archive with eleven bytes of contents, their padding and two bytes behind it, read in pieces of at
most five bytes with a pause between them. -/
def sampleArchive : BytesReader :=
  .build 16 64 true ⟨List.replicate 11 1 ++ List.replicate 5 0 ++ [2, 3], [.data 4, .pending, .data 4], 4⟩

/-- The sample is drained. -/
theorem contents_delivered_sample :
    ∃ next, await (pollDrain 50) 40 (new sampleArchive 11) = (.ready (), next) ∧
      view.unread next.reader = [2, 3] := by
  have all := @contents_delivered BytesReader _ _ sampleArchive 11
    (BytesReader.build_sound (by decide) _ _ _) (by decide) (by decide) ⟨by decide, by decide, rfl⟩
    (by decide) ⟨new sampleArchive 11, [], []⟩ .start
  exact all.2.2.2 50 40 (by decide) (by decide)

/-- Thirty-five bytes of contents and their padding, read at once as far as there is room for them, through a
buffer of at most 32 bytes. -/
def tightArchive : BytesReader := .build 16 32 true ⟨List.replicate 35 1 ++ List.replicate 5 0, [], 63⟩

/-- The archive is refused where the buffer has no room for one read and the last word. -/
theorem contents_refused :
    (pollFill (new tightArchive 35)).1 = .error (BytesReader.tooLarge 48) ∧
      ¬ ∀ (archive : BytesReader) (len : UInt64) (reading : Reading BytesReader), archive.Sound → Fits len →
        alignNat len.toNat ≤ (view.unread archive).length → view.Regular archive →
        Reached (new archive len) reading →
        (∃ buf next, reading.this.pollFill = (.ready buf, next) ∧
            (buf = [] ↔ reading.delivered = (view.unread archive).take len.toNat)) ∨
          ∃ next, reading.this.pollFill = (.pending, next) := by
  have refused : (pollFill (new tightArchive 35)).1 = .error (BytesReader.tooLarge 48) := by decide +kernel
  apply And.intro refused
  intro every
  have sound : tightArchive.Sound := BytesReader.build_sound (by decide) _ _ _
  have regular : view.Regular tightArchive := ⟨by decide, by decide, rfl⟩
  rcases every tightArchive 35 ⟨new tightArchive 35, [], []⟩ sound (by decide) (by decide) regular .start with
    ⟨buf, next, polled, _⟩ | ⟨next, polled⟩
  · rw [polled] at refused
    cases refused
  · rw [polled] at refused
    cases refused

/-! ## `poll_read` -/

/-- Read until a read gives nothing, into whatever room there is each time; `rooms` are the sizes less one
of the buffers. A buffer that a pending read has filled is not looked at. -/
def readToEof (fuel : Nat) : Nat → (Nat → Nat) → PaddedReader Source → Bytes →
    ReadEnd (PaddedReader Source)
  | 0, _, _, _ => .panicked
  | polls + 1, rooms, this, bytes =>
    match readBuf Source.pollRead fuel this (rooms 0 + 1) [] with
    | (.ready read, this) =>
      if read = [] then .done bytes this
      else readToEof fuel polls (fun poll => rooms (poll + 1)) this (bytes ++ read)
    | (.pending, this) => readToEof fuel polls (fun poll => rooms (poll + 1)) this bytes
    | (.error error, this) => .failed error this
    | (.panic, _) => .panicked

/-! ## When reading gives the contents -/

/-- The answer is that there is none yet. -/
def isPending : Turn → Bool
  | .pending => true
  | _ => false

/-- The archive is not pending before so many bytes of whole words, and then so many of the last word, are
read. -/
def Smooth : List Turn → Nat → Nat → Prop
  | [], _, _ => True
  | .data more :: plan, content, word =>
    if 0 < content then Smooth plan (content - (more + 1)) word
    else if 0 < word then Smooth plan 0 (word - (more + 1))
    else True
  | _ :: _, content, word => content = 0 ∧ word = 0

/-- Reading from a source that does not fail. -/
theorem source_read {source : Source} (steady : source.Steady) (room : Nat) :
    (∃ plan, source.plan = .pending :: plan ∧
      source.pollRead room = (.pending, { source with plan := plan })) ∨
    ∃ count plan, 0 < count ∧ (∀ rest, source.plan ≠ .pending :: rest) ∧
      (∀ turn ∈ plan, turn.isFailure = false) ∧
      source.pollRead room = (.ready (source.stream.take (min room count)),
        { source with stream := source.stream.drop (min room count), plan := plan }) ∧
      (∀ content word, 0 < content →
        (Smooth source.plan content word ↔ Smooth plan (content - count) word)) ∧
      ∀ word, 0 < word → (Smooth source.plan 0 word ↔ Smooth plan 0 (word - count)) := by
  obtain ⟨stream, plan, most⟩ := source
  cases plan with
  | nil =>
    right
    refine ⟨most + 1, [], Nat.succ_pos _, by rintro rest ⟨⟩, steady, rfl, ?_, ?_⟩
    · exact fun _ _ _ => Iff.rfl
    · exact fun _ _ => Iff.rfl
  | cons turn plan =>
    have calm : ∀ turn ∈ plan, turn.isFailure = false :=
      fun other listed => steady other (List.mem_cons_of_mem _ listed)
    cases turn with
    | data more =>
      right
      refine ⟨more + 1, plan, Nat.succ_pos _, by rintro rest ⟨⟩, calm, rfl, ?_, ?_⟩
      · intro content word positive
        rw [Smooth, if_pos positive]
      · intro word positive
        rw [Smooth, if_neg (Nat.lt_irrefl 0), if_pos positive]
    | pending => exact .inl ⟨plan, rfl, rfl⟩
    | fail error => exact absurd (steady (.fail error) List.mem_cons_self) Bool.noConfusion

/-- A pending archive is not smooth. -/
theorem not_smooth {plan : List Turn} {content word : Nat} (missing : 0 < content + word) :
    ¬ Smooth (.pending :: plan) content word := by
  rintro ⟨none, nothing⟩
  omega

/-- Whole words that are read are fewer afterwards. -/
theorem rem_sub {rem : UInt64} {count : Nat} (within : count ≤ rem.toNat) :
    (rem - UInt64.ofNat count).toNat = rem.toNat - count := toNat_sub_ofNat within

/-- Contents that are still to come. -/
def toCome (this : PaddedReader Source) : Nat :=
  match this.state with
  | .content rem => rem.toNat + this.trailerSize
  | .readPadding start _ | .padding start => this.trailerSize - start
  | .eof => 0

/-- The state behind whole words that were read. -/
def behindWords (trailer : Nat) (rem : UInt64) : PadState :=
  if rem = 0 then if 0 < trailer then .readPadding 0 0 else .eof else .content rem

/-- Behind whole words the rest of the words is to come, and the last one. -/
theorem toCome_behindWords (source : Source) (trailer : Nat) (padding : Bytes) (rem : UInt64) :
    toCome ⟨source, trailer, padding, behindWords trailer rem⟩ = rem.toNat + trailer := by
  unfold behindWords toCome
  by_cases zero : rem = 0
  · subst zero
    have none : (0 : UInt64).toNat = 0 := rfl
    rw [if_pos rfl, none]
    by_cases inside : 0 < trailer
    · rw [if_pos inside]
      exact (Nat.zero_add _).symm
    · rw [if_neg inside]
      show 0 = 0 + trailer
      omega
  · rw [if_neg zero]

/-- Reading whole words, once the archive gives some. -/
theorem pollRead_content {fuel room count : Nat} {filled padding : Bytes} {source : Source} {trailer : Nat}
    {rem : UInt64} {plan : List Turn}
    (read : source.pollRead (min rem.toNat room) =
      (.ready (source.stream.take (min (min rem.toNat room) count)),
        { source with stream := source.stream.drop (min (min rem.toNat room) count), plan := plan }))
    (enough : min (min rem.toNat room) count ≤ source.stream.length) :
    readBuf Source.pollRead (fuel + 1) ⟨source, trailer, padding, .content rem⟩ room filled =
      let n := min (min rem.toNat room) count
      if n = 0 then (.error eofInContent, ⟨{ source with
        stream := source.stream.drop n, plan := plan }, trailer, padding, .content rem⟩)
      else readBuf Source.pollRead fuel
        ⟨{ source with stream := source.stream.drop n, plan := plan }, trailer, padding,
        behindWords trailer (rem - UInt64.ofNat n)⟩ (room - n) (filled ++ source.stream.take n) := by
  have length : (source.stream.take (min (min rem.toNat room) count)).length =
      min (min rem.toNat room) count := by
    rw [List.length_take, Nat.min_eq_left enough]
  rw [readBuf]
  simp only [read]
  by_cases none : min (min rem.toNat room) count = 0
  · rw [if_pos (by rw [none, List.take_zero]), if_pos none]
  · have some : source.stream.take (min (min rem.toNat room) count) ≠ [] := by
      intro nothing
      rw [nothing, List.length_nil] at length
      exact none length.symm
    rw [if_neg some, if_neg none, length]
    rfl

/-- Reading the last word, once the archive gives some. -/
theorem pollRead_word {fuel room count stop : Nat} {filled padding : Bytes} {source : Source} {trailer : Nat}
    {plan : List Turn} (fewer : stop < 8) (positive : 0 < count)
    (read : source.pollRead (8 - stop) = (.ready (source.stream.take (min (8 - stop) count)),
      { source with stream := source.stream.drop (min (8 - stop) count), plan := plan }))
    (enough : 8 - stop ≤ source.stream.length) :
    readBuf Source.pollRead (fuel + 1) ⟨source, trailer, padding, .readPadding 0 stop⟩ room filled =
      let n := min (8 - stop) count
      readBuf Source.pollRead fuel ⟨{ source with stream := source.stream.drop n, plan := plan }, trailer,
        padding.take stop ++ source.stream.take n ++ padding.drop (stop + n),
        if stop + n = 8 then .padding 0 else .readPadding 0 (stop + n)⟩ room filled := by
  have length : (source.stream.take (min (8 - stop) count)).length = min (8 - stop) count := by
    rw [List.length_take]
    omega
  have some : source.stream.take (min (8 - stop) count) ≠ [] := by
    intro nothing
    rw [nothing, List.length_nil] at length
    omega
  rw [readBuf]
  simp only [read]
  rw [if_neg some, length]

/-- The contents in the last word are put into the buffer if they fit. -/
theorem padding_fits {fuel room : Nat} {filled padding : Bytes} {source : Source} {trailer : Nat}
    (fits : trailer ≤ room) :
    readBuf Source.pollRead (fuel + 2) ⟨source, trailer, padding, .padding 0⟩ room filled =
      (.ready (filled ++ padding.take trailer), ⟨source, trailer, padding, .eof⟩) := by
  rw [readBuf]
  simp only
  rw [if_neg (Nat.not_lt_zero _), if_neg (Nat.not_lt_zero _), Nat.sub_zero, Nat.min_eq_left fits, Nat.zero_add,
    if_pos rfl, List.drop_zero, readBuf]

/-- The last word is read, and its contents are put into the buffer, if they fit. -/
theorem word_fits {room : Nat} {filled : Bytes} {trailer : Nat} (fits : trailer ≤ room) (missing : Nat) :
    ∀ {source : Source} {padding : Bytes} {stop : Nat}, stop + missing = 8 → 0 < missing →
      padding.length = 8 → source.Steady → missing ≤ source.stream.length → Smooth source.plan 0 missing →
      ∃ fuel next,
        readBuf Source.pollRead fuel ⟨source, trailer, padding, .readPadding 0 stop⟩ room filled =
          (.ready (filled ++ (padding.take stop ++ source.stream.take missing).take trailer), next) ∧
        next.state = .eof ∧ next.reader.stream = source.stream.drop missing := by
  induction missing using Nat.strong_induction_on with
  | _ missing ih =>
    intro source padding stop joins positive eight steady enough smooth
    have gap : 8 - stop = missing := by omega
    rcases source_read steady (8 - stop) with ⟨plan, pending, _⟩ | ⟨count, plan, some, _, calm, read, _, more⟩
    · rw [pending] at smooth
      exact absurd smooth (not_smooth (by omega))
    · have smooth := (more missing positive).mp smooth
      have step (fuel : Nat) := @pollRead_word fuel room count stop filled padding source trailer plan (by omega)
        some read (by omega)
      simp only [gap] at step
      have front : (padding.take stop).length = stop := by
        rw [List.length_take]
        omega
      have size : (source.stream.take (min missing count)).length = min missing count := by
        rw [List.length_take]
        omega
      by_cases last : missing ≤ count
      · -- The word is whole.
        have whole : stop + min missing count = 8 := by omega
        have all : min missing count = missing := Nat.min_eq_left last
        refine ⟨3, ⟨{ source with stream := source.stream.drop missing, plan := plan }, trailer,
          padding.take stop ++ source.stream.take missing, .eof⟩, (step 2).trans ?_, rfl, rfl⟩
        rw [if_pos whole, padding_fits fits, whole, List.drop_eq_nil_of_le (Nat.le_of_eq eight),
          List.append_nil, all]
      · have all : min missing count = count := Nat.min_eq_right (Nat.le_of_not_le last)
        rw [all] at step size
        have word : (padding.take stop ++ source.stream.take count ++ padding.drop (stop + count)).length = 8 := by
          rw [List.length_append, List.length_append, front, size, List.length_drop]
          omega
        obtain ⟨fuel, next, result, ended, left⟩ :=
          @ih (missing - count) (by omega) { source with stream := source.stream.drop count, plan := plan }
            (padding.take stop ++ source.stream.take count ++ padding.drop (stop + count)) (stop + count)
            (by omega) (by omega) word calm (by
              show missing - count ≤ (source.stream.drop count).length
              rw [List.length_drop]
              omega) smooth
        have head : (padding.take stop ++ source.stream.take count ++ padding.drop (stop + count)).take
            (stop + count) = padding.take stop ++ source.stream.take count := by
          rw [List.take_left']
          rw [List.length_append, front, size]
        have rest : source.stream.take count ++ (source.stream.drop count).take (missing - count) =
            source.stream.take missing := by
          rw [← List.take_add, Nat.add_sub_cancel' (Nat.le_of_not_le last)]
        refine ⟨fuel + 1, next, (step fuel).trans ?_, ended, ?_⟩
        · rw [if_neg (by omega), result, head, List.append_assoc, rest]
        · rw [left, List.drop_drop, Nat.add_sub_cancel' (Nat.le_of_not_le last)]

/-- Whole words and the last word are read if they fit. -/
theorem content_fits {trailer : Nat} (small : trailer < 8) (words : Nat) :
    ∀ {source : Source} {padding filled : Bytes} {rem : UInt64} {room : Nat}, rem.toNat = words → 0 < words →
      padding.length = 8 → source.Steady → words + trailer ≤ room →
      words + alignNat trailer ≤ source.stream.length → Smooth source.plan words (alignNat trailer) →
      ∃ fuel next, readBuf Source.pollRead fuel ⟨source, trailer, padding, .content rem⟩ room filled =
          (.ready (filled ++ source.stream.take (words + trailer)), next) ∧
        next.state = .eof ∧ next.reader.stream = source.stream.drop (words + alignNat trailer) := by
  induction words using Nat.strong_induction_on with
  | _ words ih =>
    intro source padding filled rem room same positive eight steady fits enough smooth
    rcases source_read steady (min rem.toNat room) with
      ⟨plan, pending, _⟩ | ⟨count, plan, some, _, calm, read, more, _⟩
    · rw [pending] at smooth
      exact absurd smooth (not_smooth (by omega))
    · have smooth := (more words _ positive).mp smooth
      have taken : min (min rem.toNat room) count = min words count := by omega
      have step (fuel : Nat) := @pollRead_content fuel room count filled padding source trailer rem plan read
        (by omega)
      simp only [taken] at step
      have left : (rem - UInt64.ofNat (min words count)).toNat = words - min words count := by
        rw [rem_sub (by omega), same]
      have split (more : Nat) : source.stream.take (min words count) ++
          (source.stream.drop (min words count)).take more =
            source.stream.take (min words count + more) := by
        rw [← List.take_add]
      by_cases last : words ≤ count
      · -- All whole words are read.
        have all : min words count = words := Nat.min_eq_left last
        have zero : rem - UInt64.ofNat words = 0 := by
          apply UInt64.toNat_inj.mp
          rw [← all, left, all, Nat.sub_self]
          rfl
        have less : words - count = 0 := Nat.sub_eq_zero_of_le last
        rw [all] at split
        simp only [all, zero, behindWords, if_true] at step
        rw [less] at smooth
        by_cases inside : 0 < trailer
        · have word : alignNat trailer = 8 := by
            unfold alignNat
            omega
          rw [word] at smooth enough ⊢
          obtain ⟨fuel, next, result, ended, behind⟩ := @word_fits (room - words)
            (filled ++ source.stream.take words) trailer (by omega) 8
            { source with stream := source.stream.drop words, plan := plan } padding 0 rfl (by decide) eight
            calm (by
              show 8 ≤ (source.stream.drop words).length
              rw [List.length_drop]
              omega) smooth
          refine ⟨fuel + 1, next, (step fuel).trans ?_, ended, ?_⟩
          · have tail : ((source.stream.drop words).take 8).take trailer =
                (source.stream.drop words).take trailer := by
              rw [List.take_take, Nat.min_eq_left (Nat.le_of_lt small)]
            rw [if_neg (Nat.ne_of_gt positive), if_pos inside, result, List.take_zero, List.nil_append, tail,
              List.append_assoc, split]
          · rw [behind, List.drop_drop]
        · have none : trailer = 0 := Nat.eq_zero_of_not_pos inside
          subst none
          refine ⟨2, ⟨{ source with stream := source.stream.drop words, plan := plan }, 0, padding, .eof⟩,
            (step 1).trans ?_, rfl, rfl⟩
          rw [if_neg (Nat.ne_of_gt positive), if_neg (Nat.lt_irrefl 0), readBuf]
          rfl
      · have all : min words count = count := Nat.min_eq_right (Nat.le_of_not_le last)
        have apart : rem - UInt64.ofNat count ≠ 0 := by
          intro zero
          rw [all, zero] at left
          have none : (0 : UInt64).toNat = 0 := rfl
          omega
        simp only [all, behindWords, if_neg apart] at step
        rw [all] at left split
        obtain ⟨fuel, next, result, ended, behind⟩ :=
          @ih (words - count) (by omega) { source with stream := source.stream.drop count, plan := plan }
            padding (filled ++ source.stream.take count) (rem - UInt64.ofNat count) (room - count) left
            (by omega) eight calm (by omega) (by
              show words - count + alignNat trailer ≤ (source.stream.drop count).length
              rw [List.length_drop]
              omega) smooth
        have sum : count + (words - count + trailer) = words + trailer := by omega
        refine ⟨fuel + 1, next, (step fuel).trans ?_, ended, ?_⟩
        · rw [if_neg (Nat.ne_of_gt some), result, List.append_assoc, split, sum]
        · rw [behind, List.drop_drop]
          congr 1
          omega

/-- Nothing to be read is always smooth. -/
theorem smooth_nothing (plan : List Turn) : Smooth plan 0 0 := by
  cases plan with
  | nil => trivial
  | cons turn plan =>
    cases turn with
    | data more =>
      rw [Smooth, if_neg (Nat.lt_irrefl 0), if_neg (Nat.lt_irrefl 0)]
      trivial
    | pending => exact ⟨rfl, rfl⟩
    | fail error => exact ⟨rfl, rfl⟩

section Ready

variable {trailer : Nat} {bytes : Bytes} {next : PaddedReader Source}

/-- Only contents that fit are put into the buffer: a full buffer is offered again and again, or its slice
ends before it starts. -/
theorem fits_of_padding (fuel : Nat) {source : Source} {padding filled : Bytes}
    {room : Nat} (word : trailer ≤ padding.length)
    (ready : readBuf Source.pollRead fuel ⟨source, trailer, padding, .padding 0⟩ room filled =
      (.ready bytes, next)) :
    trailer ≤ room := by
  induction fuel generalizing room filled with
  | zero => cases ready
  | succ fuel ih =>
    apply Decidable.byContradiction
    intro tight
    rw [readBuf] at ready
    simp only at ready
    rw [if_neg (Nat.not_lt_zero _), if_neg (Nat.not_lt_zero _), Nat.sub_zero,
      Nat.min_eq_right (Nat.le_of_not_le tight), Nat.zero_add, if_neg (by omega)] at ready
    by_cases none : room = 0
    · subst none
      exact tight (ih ready)
    · cases fuel with
      | zero => cases ready
      | succ fuel =>
        have slice : ((padding.take room).drop 0).length = room := by
          rw [List.drop_zero, List.length_take]
          omega
        rw [readBuf, slice, Nat.sub_self] at ready
        simp only at ready
        rw [if_neg (by omega), Nat.min_zero, if_pos (Nat.pos_of_ne_zero none)] at ready
        cases ready

/-- The last word is read only if its contents fit and the archive is not pending before its end. -/
theorem fits_of_word (inside : 0 < trailer) (small : trailer < 8) (fuel : Nat) {source : Source}
    {padding filled : Bytes} {room stop : Nat} (fewer : stop < 8) (eight : padding.length = 8)
    (steady : source.Steady) (enough : 8 - stop ≤ source.stream.length)
    (ready : readBuf Source.pollRead fuel ⟨source, trailer, padding, .readPadding 0 stop⟩ room filled =
      (.ready bytes, next)) :
    trailer ≤ room ∧ Smooth source.plan 0 (8 - stop) := by
  induction fuel generalizing source padding stop with
  | zero => cases ready
  | succ fuel ih =>
    rcases source_read steady (8 - stop) with
      ⟨plan, _, read⟩ | ⟨count, plan, positive, _, calm, read, _, more⟩
    · rw [readBuf] at ready
      simp only [read] at ready
      cases ready
    · rw [pollRead_word fewer positive read enough] at ready
      rw [more _ (by omega)]
      simp only at ready
      have word : (padding.take stop ++ source.stream.take (min (8 - stop) count) ++
          padding.drop (stop + min (8 - stop) count)).length = 8 := by
        rw [List.length_append, List.length_append, List.length_take, List.length_take, List.length_drop]
        omega
      by_cases last : stop + min (8 - stop) count = 8
      · have none : 8 - stop - count = 0 := by omega
        rw [if_pos last] at ready
        rw [none]
        exact ⟨fits_of_padding fuel (by omega) ready, smooth_nothing plan⟩
      · have all : min (8 - stop) count = count := by omega
        have rest : 8 - (stop + count) = 8 - stop - count := by omega
        rw [if_neg last, all] at ready
        rw [all] at word
        have fits := @ih { source with stream := source.stream.drop count, plan := plan } _ _ (by omega) word
          calm (by
            show 8 - (stop + count) ≤ (source.stream.drop count).length
            rw [List.length_drop]
            omega) ready
        rw [rest] at fits
        exact fits

/-- Contents are read only if they fit and the archive is not pending inside them. -/
theorem fits_of_content (small : trailer < 8) (fuel : Nat) {source : Source} {padding filled : Bytes}
    {rem : UInt64} {room : Nat} (positive : 0 < rem.toNat) (eight : padding.length = 8)
    (steady : source.Steady) (enough : rem.toNat + alignNat trailer ≤ source.stream.length)
    (ready : readBuf Source.pollRead fuel ⟨source, trailer, padding, .content rem⟩ room filled =
      (.ready bytes, next)) :
    rem.toNat + trailer ≤ room ∧ Smooth source.plan rem.toNat (alignNat trailer) := by
  induction fuel generalizing source padding filled rem room with
  | zero => cases ready
  | succ fuel ih =>
    rcases source_read steady (min rem.toNat room) with
      ⟨plan, _, read⟩ | ⟨count, plan, some, _, calm, read, more, _⟩
    · rw [readBuf] at ready
      simp only [read] at ready
      cases ready
    · rw [pollRead_content read (by omega)] at ready
      rw [more _ _ positive]
      simp only at ready
      have left := @rem_sub rem (min (min rem.toNat room) count) (by omega)
      have gone : (source.stream.drop (min (min rem.toNat room) count)).length =
          source.stream.length - min (min rem.toNat room) count := List.length_drop
      by_cases none : min (min rem.toNat room) count = 0
      · rw [if_pos none] at ready
        cases ready
      · rw [if_neg none, behindWords] at ready
        by_cases zero : rem - UInt64.ofNat (min (min rem.toNat room) count) = 0
        · rw [zero] at left
          have left : 0 = rem.toNat - min (min rem.toNat room) count := left
          have less : rem.toNat - count = 0 := by omega
          rw [if_pos zero] at ready
          rw [less]
          by_cases inside : 0 < trailer
          · have word : alignNat trailer = 8 := by
              unfold alignNat
              omega
            rw [if_pos inside] at ready
            rw [word] at enough ⊢
            have fits := @fits_of_word trailer _ _ inside small fuel
              { source with stream := source.stream.drop (min (min rem.toNat room) count), plan := plan }
              _ _ _ 0 (by decide) eight calm (by
                show 8 - 0 ≤ (source.stream.drop _).length
                omega) ready
            exact ⟨by omega, fits.2⟩
          · have none : trailer = 0 := Nat.eq_zero_of_not_pos inside
            subst none
            exact ⟨by omega, smooth_nothing plan⟩
        · have apart : 0 < (rem - UInt64.ofNat (min (min rem.toNat room) count)).toNat := by
            apply Nat.pos_of_ne_zero
            intro nothing
            exact zero (UInt64.toNat_inj.mp nothing)
          rw [if_neg zero] at ready
          have fits := @ih { source with
            stream := source.stream.drop (min (min rem.toNat room) count), plan := plan } padding _ _ _ apart
            eight calm (by
              show _ ≤ (source.stream.drop _).length
              omega) ready
          rw [left] at fits apart
          have all : rem.toNat - min (min rem.toNat room) count = rem.toNat - count := by omega
          rw [all] at fits
          exact ⟨by omega, fits.2⟩

end Ready

/-- What is read comes off what is to come, and so does what a pending read loses. -/
theorem pollRead_spends (fuel : Nat) {this next : PaddedReader Source} {room : Nat} {filled : Bytes}
    {answer : Poll Bytes} (steady : this.reader.Steady)
    (polled : readBuf Source.pollRead fuel this room filled = (answer, next)) :
    next.reader.Steady ∧ ∃ put, put + next.toCome ≤ this.toCome ∧
      ∀ bytes, answer = .ready bytes → bytes.length = filled.length + put := by
  induction fuel generalizing this room filled with
  | zero =>
    cases polled
    exact ⟨steady, 0, by omega, by rintro bytes ⟨⟩⟩
  | succ fuel ih =>
    obtain ⟨source, trailer, padding, state⟩ := this
    -- What a step leaves to come, the rest of the read spends.
    have onward {after : PaddedReader Source} {space : Nat} {more : Bytes} (put : Nat)
        (polled : readBuf Source.pollRead fuel after space more = (answer, next)) (calm : after.reader.Steady)
        (size : more.length = filled.length + put)
        (less : put + after.toCome ≤ toCome ⟨source, trailer, padding, state⟩) :
        next.reader.Steady ∧ ∃ put, put + next.toCome ≤ toCome ⟨source, trailer, padding, state⟩ ∧
          ∀ bytes, answer = .ready bytes → bytes.length = filled.length + put := by
      obtain ⟨calm', put', less', length⟩ := ih calm polled
      refine ⟨calm', put + put', by omega, fun bytes ready => ?_⟩
      rw [length bytes ready, size, Nat.add_assoc]
    have still {reader : Source} (calm : reader.Steady) (quiet : ∀ bytes, answer ≠ .ready bytes)
        (same : next = ⟨reader, trailer, padding, state⟩) :
        next.reader.Steady ∧ ∃ put, put + next.toCome ≤ toCome ⟨source, trailer, padding, state⟩ ∧
          ∀ bytes, answer = .ready bytes → bytes.length = filled.length + put := by
      subst same
      exact ⟨calm, 0, Nat.le_of_eq (Nat.zero_add _), fun bytes ready => absurd ready (quiet bytes)⟩
    rw [readBuf] at polled
    cases state with
    | content rem =>
      simp only at polled
      have read := source.pollRead_polled (min rem.toNat room)
      generalize source.pollRead (min rem.toNat room) = result at read polled
      cases read with
      | @ready bytes reader joined empty within calm spent bounded smaller =>
        simp only at polled
        by_cases none : bytes = []
        · rw [if_pos none] at polled
          cases polled
          exact still (calm steady) (by rintro bytes ⟨⟩) rfl
        · rw [if_neg none] at polled
          have left := @rem_sub rem bytes.length (by omega)
          refine onward bytes.length polled (calm steady) List.length_append ?_
          have behind := toCome_behindWords reader trailer padding (rem - UInt64.ofNat bytes.length)
          show bytes.length + toCome ⟨reader, trailer, padding, behindWords trailer _⟩ ≤ rem.toNat + trailer
          omega
      | pending same calm less smaller =>
        cases polled
        exact still (calm steady) (by rintro bytes ⟨⟩) rfl
      | error same unsteady spent smaller => exact absurd steady unsteady
    | readPadding start stop =>
      simp only at polled
      have read := source.pollRead_polled (8 - stop)
      generalize source.pollRead (8 - stop) = result at read polled
      cases read with
      | @ready bytes reader joined empty within calm spent bounded smaller =>
        simp only at polled
        by_cases none : bytes = []
        · rw [if_pos none] at polled
          cases polled
          exact still (calm steady) (by rintro bytes ⟨⟩) rfl
        · rw [if_neg none] at polled
          refine onward 0 polled (calm steady) rfl ?_
          show 0 + toCome _ ≤ trailer - start
          unfold toCome
          simp only
          by_cases last : stop + bytes.length = 8
          · rw [if_pos last]
            exact Nat.le_of_eq (Nat.zero_add _)
          · rw [if_neg last]
            exact Nat.le_of_eq (Nat.zero_add _)
      | pending same calm less smaller =>
        cases polled
        exact still (calm steady) (by rintro bytes ⟨⟩) rfl
      | error same unsteady spent smaller => exact absurd steady unsteady
    | padding pos =>
      simp only at polled
      by_cases wrong : trailer < pos
      · rw [if_pos wrong] at polled
        cases polled
        exact still steady (by rintro bytes ⟨⟩) rfl
      · rw [if_neg wrong] at polled
        by_cases back : min (trailer - pos) room < pos
        · rw [if_pos back] at polled
          cases polled
          exact still steady (by rintro bytes ⟨⟩) rfl
        · rw [if_neg back] at polled
          have slice : ((padding.take (min (trailer - pos) room)).drop pos).length ≤
              min (trailer - pos) room - pos := by
            rw [List.length_drop, List.length_take]
            omega
          refine onward ((padding.take (min (trailer - pos) room)).drop pos).length polled steady
            List.length_append ?_
          show _ + toCome _ ≤ trailer - pos
          unfold toCome
          simp only
          by_cases last : pos + min (trailer - pos) room = trailer
          · rw [if_pos last]
            show _ + 0 ≤ trailer - pos
            omega
          · rw [if_neg last]
            show _ + (trailer - (pos + min (trailer - pos) room)) ≤ trailer - pos
            omega
    | eof =>
      cases polled
      refine ⟨steady, 0, Nat.le_of_eq (Nat.zero_add _), ?_⟩
      rintro bytes ⟨⟩
      rfl

/-- No more comes than is to come. -/
theorem readToEof_length {fuel : Nat} (polls : Nat) {rooms : Nat → Nat} {this next : PaddedReader Source}
    {bytes total : Bytes} (steady : this.reader.Steady)
    (read : readToEof fuel polls rooms this bytes = .done total next) :
    total.length ≤ bytes.length + this.toCome := by
  induction polls generalizing rooms this bytes with
  | zero => cases read
  | succ polls ih =>
    rw [readToEof] at read
    cases polled : readBuf Source.pollRead fuel this (rooms 0 + 1) [] with
    | mk answer after =>
      obtain ⟨calm, put, less, length⟩ := pollRead_spends fuel steady polled
      rw [polled] at read
      cases answer with
      | ready more =>
        have length := length more rfl
        simp only at read
        by_cases none : more = []
        · rw [if_pos none] at read
          cases read
          exact Nat.le_add_right _ _
        · rw [if_neg none] at read
          have most := ih calm read
          rw [List.length_append, length, List.length_nil] at most
          omega
      | pending =>
        have most := ih calm read
        omega
      | error error => cases read
      | panic => cases read

/-- A fresh reader stands before the whole words. -/
theorem new_words (source : Source) (len : UInt64) :
    (new source len).trailerSize = len.toNat % 8 ∧
      ∃ rem : UInt64, rem.toNat = len.toNat / 8 * 8 ∧
        new source len = ⟨source, len.toNat % 8, zeros, .content rem⟩ := by
  have low := clear_low_bits len
  have below : len &&& ~~~7 ≤ len := by
    rw [UInt64.le_iff_toNat_le, low]
    omega
  have trailer : (len - (len &&& ~~~7)).toNat = len.toNat % 8 := by
    rw [UInt64.toNat_sub_of_le _ _ below, low]
    omega
  refine ⟨trailer, len &&& ~~~7, low, ?_⟩
  rw [new, trailer]

/-- Every length is whole words and the contents of the last one. -/
theorem words_and_trailer (len : Nat) :
    len / 8 * 8 + len % 8 = len ∧ len / 8 * 8 + alignNat (len % 8) = alignNat len := by
  unfold alignNat
  omega

/-- A pending archive is asked again with the next buffer. -/
theorem readToEof_pending {fuel polls trailer : Nat} {rooms : Nat → Nat} {source : Source} {rem : UInt64}
    {padding : Bytes} {plan : List Turn} (pending : source.plan = .pending :: plan) :
    readToEof (fuel + 1) (polls + 1) rooms ⟨source, trailer, padding, .content rem⟩ [] =
      readToEof (fuel + 1) polls (fun poll => rooms (poll + 1))
        ⟨{ source with plan := plan }, trailer, padding, .content rem⟩ [] := by
  have read (room : Nat) : source.pollRead room = (.pending, { source with plan := plan }) := by
    rw [Source.pollRead, pending]
  rw [readToEof, readBuf]
  simp only [read]

/-- Contents that fit into the buffer of the first poll that finds the archive ready are read. -/
theorem readToEof_fits {trailer : Nat} {rem : UInt64} {padding : Bytes} (small : trailer < 8)
    (positive : 0 < rem.toNat) (eight : padding.length = 8) (plan : List Turn) :
    ∀ {source : Source} {rooms : Nat → Nat}, source.plan = plan → source.Steady →
      rem.toNat + alignNat trailer ≤ source.stream.length →
      rem.toNat + trailer ≤ rooms (plan.takeWhile isPending).length + 1 →
      Smooth (plan.dropWhile isPending) rem.toNat (alignNat trailer) →
      ∃ fuel polls next, readToEof fuel polls rooms ⟨source, trailer, padding, .content rem⟩ [] =
          .done (source.stream.take (rem.toNat + trailer)) next ∧
        next.reader.stream = source.stream.drop (rem.toNat + alignNat trailer) := by
  -- The poll that finds the archive ready puts everything; the one after it puts nothing.
  have ready {source : Source} {rooms : Nat → Nat} (steady : source.Steady)
      (enough : rem.toNat + alignNat trailer ≤ source.stream.length)
      (fits : rem.toNat + trailer ≤ rooms 0 + 1) (smooth : Smooth source.plan rem.toNat (alignNat trailer)) :
      ∃ fuel polls next, readToEof fuel polls rooms ⟨source, trailer, padding, .content rem⟩ [] =
          .done (source.stream.take (rem.toNat + trailer)) next ∧
        next.reader.stream = source.stream.drop (rem.toNat + alignNat trailer) := by
    obtain ⟨fuel, next, polled, ended, left⟩ :=
      @content_fits trailer small rem.toNat source padding [] rem (rooms 0 + 1) rfl positive eight steady fits
        enough smooth
    rw [List.nil_append] at polled
    have some : source.stream.take (rem.toNat + trailer) ≠ [] := by
      intro nothing
      have length := congrArg List.length nothing
      rw [List.length_take, List.length_nil] at length
      unfold alignNat at enough
      omega
    cases fuel with
    | zero => cases polled
    | succ fuel =>
      have still (room : Nat) : readBuf Source.pollRead (fuel + 1) next room [] = (.ready [], next) := by
        rw [readBuf, ended]
      refine ⟨fuel + 1, 2, next, ?_, left⟩
      rw [readToEof, polled]
      simp only
      rw [if_neg some, readToEof, still]
      rfl
  induction plan with
  | nil =>
    intro source rooms same steady enough fits smooth
    apply ready steady enough fits
    rw [same]
    exact smooth
  | cons turn plan ih =>
    intro source rooms same steady enough fits smooth
    by_cases paused : isPending turn = true
    · cases turn with
      | pending =>
        have calm : Source.Steady { source with plan := plan } := by
          intro other listed
          apply steady
          rw [same]
          exact List.mem_cons_of_mem _ listed
        obtain ⟨fuel, polls, next, read, left⟩ :=
          @ih { source with plan := plan } (fun poll => rooms (poll + 1)) rfl calm enough fits smooth
        cases fuel with
        | zero =>
          cases polls with
          | zero => cases read
          | succ polls => cases read
        | succ fuel =>
          refine ⟨fuel + 1, polls + 1, next, ?_, left⟩
          rw [readToEof_pending same]
          exact read
      | data more => cases paused
      | fail error => cases paused
    · rw [List.takeWhile_cons_of_neg paused] at fits
      rw [List.dropWhile_cons_of_neg paused] at smooth
      apply ready steady enough fits
      rw [same]
      exact smooth

/-- Without a whole word nothing is read: the archive is asked for no bytes, and that it gives none is taken
for its end. -/
theorem readToEof_short {trailer fuel : Nat} {rem : UInt64} {padding : Bytes} (none : rem.toNat = 0)
    (polls : Nat) {source : Source} {rooms : Nat → Nat} {bytes : Bytes} {next : PaddedReader Source}
    (steady : source.Steady) :
    readToEof fuel polls rooms ⟨source, trailer, padding, .content rem⟩ [] ≠ .done bytes next := by
  induction polls generalizing source rooms with
  | zero => rintro ⟨⟩
  | succ polls ih =>
    intro read
    cases fuel with
    | zero => cases read
    | succ fuel =>
      rcases source_read steady (min rem.toNat (rooms 0 + 1)) with
        ⟨plan, pending, _⟩ | ⟨count, plan, _, _, _, asked, _, _⟩
      · rw [readToEof_pending pending] at read
        have calm : Source.Steady { source with plan := plan } := by
          intro other listed
          apply steady
          rw [pending]
          exact List.mem_cons_of_mem _ listed
        exact ih calm read
      · have nothing : min (min rem.toNat (rooms 0 + 1)) count = 0 := by omega
        rw [readToEof, pollRead_content asked (by omega)] at read
        simp only at read
        rw [if_pos nothing] at read
        cases read

/-- Contents that a poll took before it found the archive pending are lost. -/
theorem pollRead_loses {trailer fuel room count : Nat} {rem : UInt64} {padding : Bytes} {source : Source}
    {plan : List Turn} {next : PaddedReader Source} (some : 0 < count) (vacant : 0 < room)
    (calm : ∀ turn ∈ plan, turn.isFailure = false)
    (read : source.pollRead (min rem.toNat room) =
      (.ready (source.stream.take (min (min rem.toNat room) count)),
        { source with stream := source.stream.drop (min (min rem.toNat room) count), plan := plan }))
    (enough : rem.toNat ≤ source.stream.length) (positive : 0 < rem.toNat)
    (polled : readBuf Source.pollRead (fuel + 1) ⟨source, trailer, padding, .content rem⟩ room [] =
      (.pending, next)) :
    next.reader.Steady ∧ next.toCome < rem.toNat + trailer := by
  rw [pollRead_content read (by omega)] at polled
  simp only at polled
  rw [if_neg (by omega)] at polled
  obtain ⟨steady, put, less, _⟩ := pollRead_spends fuel (by exact calm) polled
  rw [toCome_behindWords, rem_sub (by omega)] at less
  exact ⟨steady, by omega⟩

/-- All contents are read only if they fit into the buffer of the first poll that finds the archive ready,
and the archive is not pending inside them. -/
theorem fits_of_read {trailer fuel : Nat} {rem : UInt64} {padding : Bytes} (small : trailer < 8)
    (positive : 0 < rem.toNat) (eight : padding.length = 8) (polls : Nat) {source : Source}
    {rooms : Nat → Nat} {bytes : Bytes} {next : PaddedReader Source} (steady : source.Steady)
    (enough : rem.toNat + alignNat trailer ≤ source.stream.length)
    (all : bytes.length = rem.toNat + trailer)
    (read : readToEof fuel polls rooms ⟨source, trailer, padding, .content rem⟩ [] = .done bytes next) :
    rem.toNat + trailer ≤ rooms (source.plan.takeWhile isPending).length + 1 ∧
      Smooth (source.plan.dropWhile isPending) rem.toNat (alignNat trailer) := by
  induction polls generalizing source rooms with
  | zero => cases read
  | succ polls ih =>
    cases fuel with
    | zero => cases read
    | succ fuel =>
      rcases source_read steady (min rem.toNat (rooms 0 + 1)) with
        ⟨plan, pending, _⟩ | ⟨count, plan, some, awake, calm, asked, _, _⟩
      · rw [readToEof_pending pending] at read
        have calm : Source.Steady { source with plan := plan } := by
          intro other listed
          apply steady
          rw [pending]
          exact List.mem_cons_of_mem _ listed
        rw [pending]
        exact ih calm enough read
      · have front : source.plan.takeWhile isPending = [] ∧ source.plan.dropWhile isPending = source.plan := by
          cases plan : source.plan with
          | nil => exact ⟨rfl, rfl⟩
          | cons turn rest =>
            cases turn with
            | pending => exact absurd plan (awake rest)
            | data more => exact ⟨rfl, rfl⟩
            | fail error => exact ⟨rfl, rfl⟩
        rw [front.1, front.2]
        rw [readToEof] at read
        cases polled : readBuf Source.pollRead (fuel + 1) ⟨source, trailer, padding, .content rem⟩
          (rooms 0 + 1) [] with
        | mk answer after =>
          rw [polled] at read
          cases answer with
          | ready more => exact fits_of_content small (fuel + 1) positive eight steady enough polled
          | pending =>
            -- Bytes that were put are lost, so the rest is too short.
            have less := pollRead_loses some (Nat.succ_pos _) calm asked (by omega) positive polled
            have most := readToEof_length polls less.1 read
            rw [List.length_nil] at most
            omega
          | error error => cases read
          | panic => cases read

/-- `poll_read` gives all contents, and leaves the archive behind their padding, exactly when there is a whole
word of them, they fit into the buffer of the first poll that finds the archive ready, and the archive is not
pending between their first byte and the end of their padding. -/
theorem readToEof_exact {source : Source} {len : UInt64} (steady : source.Steady)
    (whole : alignNat len.toNat ≤ source.stream.length) (rooms : Nat → Nat) :
    (∃ fuel polls next, readToEof fuel polls rooms (new source len) [] =
          .done (source.stream.take len.toNat) next ∧
        next.reader.stream = source.stream.drop (alignNat len.toNat)) ↔
      8 ≤ len.toNat ∧ len.toNat ≤ rooms (source.plan.takeWhile isPending).length + 1 ∧
        Smooth (source.plan.dropWhile isPending) (len.toNat / 8 * 8) (alignNat (len.toNat % 8)) := by
  obtain ⟨_, rem, words, fresh⟩ := new_words source len
  obtain ⟨sum, span⟩ := words_and_trailer len.toNat
  have small : len.toNat % 8 < 8 := Nat.mod_lt _ (by decide)
  rw [← words] at sum span
  rw [fresh, ← span]
  rw [← span] at whole
  constructor
  · rintro ⟨fuel, polls, next, read, _⟩
    by_cases none : rem.toNat = 0
    · exact absurd read (readToEof_short none polls steady)
    · have length : (source.stream.take len.toNat).length = rem.toNat + len.toNat % 8 := by
        rw [List.length_take, sum]
        have padded := le_alignNat (len.toNat % 8)
        omega
      obtain ⟨fits, smooth⟩ :=
        fits_of_read small (Nat.pos_of_ne_zero none) rfl polls steady whole length read
      rw [words] at smooth
      exact ⟨by omega, by omega, smooth⟩
  · rintro ⟨long, fits, smooth⟩
    have eight : zeros.length = 8 := rfl
    have positive : 0 < rem.toNat := by omega
    rw [← words] at smooth
    have read := @readToEof_fits _ _ _ small positive eight source.plan source rooms rfl steady whole
      (by omega) smooth
    rw [sum] at read
    exact read

/-- Eleven bytes of contents that come in three pieces after a pause. -/
def sampleSource : Source :=
  ⟨List.replicate 11 1 ++ List.replicate 5 0 ++ [2, 3], [.pending, .data 4, .data 20], 3⟩

/-- A buffer of eleven bytes is enough for the sample. -/
theorem readToEof_exact_sample :
    ∃ fuel polls next, readToEof fuel polls (fun _ => 10) (new sampleSource 11) [] =
        .done (List.replicate 11 1) next ∧
      next.reader.stream = [2, 3] := by
  apply (@readToEof_exact sampleSource 11 (by decide) (by decide) (fun _ => 10)).mpr
  have smooth : Smooth [.data 4, .data 20] 8 8 := by simp [Smooth]
  exact ⟨by decide, by decide, smooth⟩

/-- Five bytes of contents cannot be read, though a padded word holds them. -/
theorem short_contents_fail :
    readToEof 1 1 (fun _ => 7) (new ⟨[1, 2, 3, 4, 5, 0, 0, 0], [], 63⟩ 5) [] =
        .failed eofInContent (new ⟨[1, 2, 3, 4, 5, 0, 0, 0], [], 63⟩ 5) ∧
      ¬ ∃ fuel polls next, readToEof fuel polls (fun _ => 7) (new ⟨[1, 2, 3, 4, 5, 0, 0, 0], [], 63⟩ 5) [] =
        .done [1, 2, 3, 4, 5] next := by
  constructor
  · rfl
  · rintro ⟨fuel, polls, next, read⟩
    obtain ⟨_, rem, words, fresh⟩ := new_words ⟨[1, 2, 3, 4, 5, 0, 0, 0], [], 63⟩ 5
    have none : rem.toNat = 0 := words
    have steady : Source.Steady ⟨[1, 2, 3, 4, 5, 0, 0, 0], [], 63⟩ := by decide
    rw [fresh] at read
    exact readToEof_short none polls steady read

end PaddedReader

end Harmonia.Nar
