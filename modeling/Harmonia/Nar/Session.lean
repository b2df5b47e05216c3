import Mathlib.Data.List.Basic
import Mathlib.Algebra.Order.Ring.Nat
import Harmonia.Nar.Telling

/-!
# A session follows the transcript

A session is used in any order: the parser is polled, the file reader it lent is filled,
consumed from and dropped. What is left of the transcript, and of the contents being read
(`Follows`), is the invariant of each of these. Contents that are dropped early are drained
by the parser, so how much of a file was read makes no difference to what comes after it.
-/

namespace Harmonia.Nar

open Library

variable {R : Type} [AsyncBytesRead R] [LawfulBytesRead R] (trust : Trust)

/-- No contents are out: there is no file reader, or it has reached its end. -/
def Session.Released (this : Session R) : Prop := ∀ file, this.file = some file → file = ⟨none, []⟩

/-- Contents are out. Behind what has been consumed, `bytes` are still to come. -/
inductive Reading (told : Transcript) (cap : Nat) (bytes : Bytes) (this : Session R) : Prop
  | mk {padded : PaddedReader R} {buffer : Bytes} (lent : this.parser.reader = .lent none)
    (holds : this.file = some ⟨some padded, buffer⟩)
    (remains : Remains trust told cap this.parser.name this.parser.state bytes padded)
    (shown : buffer = [] ∨ (padded.Sound ∧ padded.Shows buffer))

/-- A session, and the transcript it still has to tell. -/
inductive Follows (told : Transcript) (cap : Nat) (this : Session R) : Prop
  /-- The parser can be polled. -/
  | free (stands : Stands trust told cap this.parser) (released : this.Released)
  /-- A file is being read. -/
  | reading {bytes : Bytes} (reading : Reading trust told cap bytes this)

/-- What `poll_next` of a session with no contents out does. -/
inductive Told (told : Transcript) (cap : Nat) : Poll (Option (NarEvent Unit)) × Session R → Prop
  | ended {session : Session R} {reader : R} {fields : List Nat}
    (past : told = ⟨[], fields, .clean (view.unread reader)⟩)
    (holds : session.parser.reader = .available reader)
    (follows : Follows trust ⟨[], [], .clean (view.unread reader)⟩ cap session) :
    Told told cap (.ready none, session)
  | event {session : Session R} {event : NarEvent Empty} {later : Transcript} {fields : List Nat}
    (split : told = later.after [event.map Empty.elim] fields)
    (stands : Stands trust later cap session.parser) (released : session.Released) :
    Told told cap (.ready (some (event.map Empty.elim)), session)
  | file {session : Session R} {name : Bytes} {executable : Bool} {size : UInt64} {bytes : Bytes}
    {later : Transcript} {fields : List Nat}
    (split : told = later.after [.file name executable size bytes] fields)
    (fresh : ∃ reader, session.file = some ⟨some (PaddedReader.new reader size), []⟩)
    (short : bytes.length ≤ cap) (reading : Reading trust later cap bytes session) :
    Told told cap (.ready (some (.file name executable size ())), session)
  | pending {session : Session R} {later : Transcript} {fields : List Nat} {less : Nat}
    (split : told = later.after [] fields) (stands : Stands trust later less session.parser)
    (released : session.Released) (fewer : less < cap) : Told told cap (.pending, session)
  | error {session : Session R} {error : IoError} (fails : Fails R trust told error) :
    Told told cap (.error error, session)
  | broken {session : Session R} (none : told.events = []) (past : told.ending = .broken) :
    Told told cap (.panic, session)

/-- What filling the buffer of a file reader does. -/
inductive Filled (told : Transcript) (cap : Nat) (bytes : Bytes) : Poll Bytes × Session R → Prop
  | shown {session : Session R} {padded : PaddedReader R} {buf : Bytes} (nonempty : buf ≠ [])
    (starts : buf <+: bytes) (holds : session.file = some ⟨some padded, buf⟩)
    (reading : Reading trust told cap bytes session) : Filled told cap bytes (.ready buf, session)
  | ended {session : Session R} (none : bytes = []) (full : ¬ told.Torn .trailer)
    (stands : Stands trust told cap session.parser)
    (released : session.Released) : Filled told cap bytes (.ready [], session)
  | pending {session : Session R} {less : Nat} (reading : Reading trust told less bytes session)
    (fewer : less < cap) : Filled told cap bytes (.pending, session)
  | error {session : Session R} {error : IoError} (fails : Fails R trust told error)
    (words : trust.good → ¬ told.Torn .words)
    (reading : Reading Trust.never told cap bytes session) :
    Filled told cap bytes (.error error, session)
  | broken {session : Session R} (past : told = ⟨[], [], .broken⟩) :
    Filled told cap bytes (.panic, session)

variable {trust}

/-- A larger budget does no harm to contents that are out. -/
theorem Reading.weaken {told : Transcript} {cap more : Nat} {bytes : Bytes} {this : Session R}
    (reading : Reading trust told cap bytes this) (grows : cap ≤ more) :
    Reading trust told more bytes this := by
  cases reading with
  | mk lent holds remains shown => exact .mk lent holds (remains.weaken grows) shown

/-- A larger budget does no harm to a session. -/
theorem Follows.weaken {told : Transcript} {cap more : Nat} {this : Session R}
    (follows : Follows trust told cap this) (grows : cap ≤ more) :
    Follows trust told more this := by
  cases follows with
  | free stands released => exact .free (stands.weaken grows) released
  | reading reading => exact .reading (reading.weaken grows)

/-- What is told behind fields that were passed before. -/
theorem Told.after {told : Transcript} {cap more : Nat}
    {result : Poll (Option (NarEvent Unit)) × Session R} (said : Told trust told cap result)
    (grows : cap ≤ more) (fields : List Nat) : Told trust (told.after [] fields) more result := by
  cases said with
  | ended past holds follows =>
    subst past
    exact .ended rfl holds (follows.weaken grows)
  | @event _ event later fields' split stands released =>
    subst split
    have joined := later.after_after [] [event.map Empty.elim] fields fields'
    exact .event joined (stands.weaken grows) released
  | @file _ name executable size bytes later fields' split fresh short reading =>
    subst split
    have joined := later.after_after [] [.file name executable size bytes] fields fields'
    exact .file joined fresh (Nat.le_trans short grows) (reading.weaken grows)
  | @pending _ later fields' less split stands released fewer =>
    subst split
    have joined := later.after_after [] [] fields fields'
    exact .pending joined stands released (Nat.lt_of_lt_of_le fewer grows)
  | error fails => exact .error (fails.after fields)
  | broken none past => exact .broken none past

/-- A larger budget does no harm to what filling does. -/
theorem Filled.weaken {told : Transcript} {cap more : Nat} {bytes : Bytes}
    {result : Poll Bytes × Session R} (filled : Filled trust told cap bytes result)
    (grows : cap ≤ more) : Filled trust told more bytes result := by
  cases filled with
  | shown nonempty starts holds reading =>
    exact .shown nonempty starts holds (reading.weaken grows)
  | ended none full stands released => exact .ended none full (stands.weaken grows) released
  | pending reading fewer => exact .pending reading (Nat.lt_of_lt_of_le fewer grows)
  | error fails words reading => exact .error fails words (reading.weaken grows)
  | broken past => exact .broken past

omit [AsyncBytesRead R] [LawfulBytesRead R] in
/-- Another parser leaves a file reader at its end. -/
theorem Session.Released.with {this : Session R} (released : this.Released) (parser : NarParser R) :
    Session.Released { this with parser := parser } := released

/-- `poll_next` tells the next of the transcript. -/
theorem Stands.told {told : Transcript} {cap : Nat} {this : Session R}
    (stands : Stands trust told cap this.parser) (released : this.Released) :
    Told trust told cap this.next := by
  have advances := stands.advances
  rw [Session.next]
  generalize this.parser.pollNext = result at advances
  cases advances with
  | @ended parser reader fields past idle =>
    exact .ended past idle.holds (.free (.idle idle) (released.with parser))
  | @event parser reader event later fields split idle =>
    cases event with
    | file _ _ _ none => exact none.elim
    | symlink name target => exact .event split (.idle idle) (released.with parser)
    | startDirectory name => exact .event split (.idle idle) (released.with parser)
    | endDirectory => exact .event split (.idle idle) (released.with parser)
  | @file parser name executable size padded bytes later fields split lent fresh short remains =>
    obtain ⟨reader, rfl⟩ := fresh
    exact .file split ⟨reader, rfl⟩ short (.mk lent rfl remains (.inl rfl))
  | @pending parser later fields less split stands fewer =>
    exact .pending split stands (released.with parser) fewer
  | error fails => exact .error fails
  | broken none past => exact .broken none past

/-- While contents are out the parser waits for them. -/
theorem Reading.next {told : Transcript} {cap : Nat} {bytes : Bytes} {this : Session R}
    (reading : Reading trust told cap bytes this) : this.next = (.pending, this) := by
  obtain ⟨lent, _, _, _⟩ := reading
  obtain ⟨⟨reader, name, state⟩, file⟩ := this
  obtain rfl : reader = .lent none := lent
  rfl

/-- What a poll keeps of the contents leaves the same to be told. -/
theorem Remains.kept {told : Transcript} {less : Nat} {name : Option Bytes} {state : Inner}
    {padded next : PaddedReader R} (mark : state.wake = some ⟨.finishNode 0, state.level⟩)
    (whole : padded.Complete → state.outlook name padded.left = told)
    (cut : ¬ padded.Complete → told = ⟨[], [], .cut padded.breach⟩) (knows : trust.Knows next.reader)
    (tame : trust.good → next.Tame trust.bound) (sound : next.Sound)
    (left : next.left = padded.left) (complete : next.Complete ↔ padded.Complete)
    (lacks : next.Lacks ↔ padded.Lacks) (spent : budget next.reader ≤ less) :
    Remains trust told less name state next.remaining next :=
  .sound sound rfl mark (fun all => left ▸ whole (complete.mp all))
    (fun short => PaddedReader.breach_eq lacks ▸ cut fun all => short (complete.mpr all)) knows tame
    spent

/-- Filling the buffer of a file reader shows what comes next of its contents. -/
theorem Reading.filled {told : Transcript} {cap : Nat} {bytes : Bytes} {this : Session R}
    (reading : Reading trust told cap bytes this) : Filled trust told cap bytes this.fill := by
  have whole := reading
  cases reading with
  | @mk padded buffer lent holds remains shown =>
    simp only [Session.fill, holds]
    by_cases visible : buffer = []
    · rw [if_neg (not_not.mpr visible)]
      cases remains with
      | broken past stuck =>
        rw [PaddedReader.pollFill, PaddedReader.fillWith, stuck]
        exact .broken past
      | sound sound remaining mark whole cut knows tame spent =>
        have poured := PaddedReader.pollFill_pours sound
        -- The transcript is torn only where the contents break off.
        have torn {breach : Breach} (content : breach ≠ .markup)
            (other : ¬ padded.Complete → padded.breach ≠ breach) : ¬ told.Torn breach := by
          by_cases complete : padded.Complete
          · rw [← whole complete]
            exact Inner.outlook_torn content _ _ _
          · rw [cut complete]
            exact fun torn => other complete (Ending.cut.inj torn.2)
        have words (enough : ¬ padded.Lacks) : ¬ told.Torn .words := by
          refine torn Breach.noConfusion fun _ => ?_
          rw [PaddedReader.breach, if_neg enough]
          exact Breach.noConfusion
        -- A read that fails keeps the contents, whatever became of the source.
        have unsure {next : PaddedReader R} (keeps : PaddedReader.Keeps padded next) :
            Reading Trust.never told cap bytes { this with file := some ⟨some next, []⟩ } := by
          have remains := @Remains.kept R _ _ Trust.never told cap _ _ _ _ mark whole cut False.elim
            False.elim keeps.sound keeps.left keeps.complete keeps.lacks (Nat.le_trans keeps.budget spent)
          rw [keeps.remaining, remaining] at remains
          exact .mk lent rfl remains (.inl rfl)
        generalize padded.pollFill = result at poured
        cases poured with
        | @ready next buf keeps regular tame' shows_ ends =>
          have remains := Remains.kept mark whole cut
            (knows.next regular keeps.chunk keeps.limit)
            (fun good => tame' (knows good).2.1 (tame good)) keeps.sound keeps.left keeps.complete
            keeps.lacks (Nat.le_trans keeps.budget spent)
          rw [keeps.remaining, remaining] at remains
          by_cases none : buf = []
          · simp only [if_pos none]
            refine .ended ?_ ?_ (.returned (.inl rfl) remains) ?_
            · rcases ends none with due | ⟨rem, content, _, gone, _⟩
              · rw [← remaining, PaddedReader.remaining, due, List.take_zero]
              · rw [← remaining, PaddedReader.remaining, PaddedReader.ahead, PaddedReader.held,
                  content, gone]
                exact List.take_nil
            · refine torn Breach.noConfusion fun short => ?_
              rcases ends none with due | ⟨rem, content, positive, gone, _⟩
              · have paid := sound.owed_zero due
                rw [PaddedReader.Complete, paid] at short
                exact absurd (Nat.zero_le _) short
              · have lacks : padded.Lacks := by
                  rw [PaddedReader.Lacks, PaddedReader.owed, content, gone]
                  change padded.aligned + 0 < rem.toNat + padded.aligned
                  omega
                rw [PaddedReader.breach, if_pos lacks]
                exact Breach.noConfusion
            · intro file same
              cases same
              rfl
          · simp only [if_neg none]
            refine .shown none ?_ rfl (.mk lent rfl remains (.inr ⟨keeps.sound, shows_⟩))
            rw [← remaining, ← keeps.remaining]
            exact shows_.starts keeps.sound
        | @pending next keeps regular tame' less =>
          have remains := Remains.kept mark whole cut
            (knows.next regular keeps.chunk keeps.limit)
            (fun good => tame' (knows good).2.1 (tame good)) keeps.sound keeps.left keeps.complete
            keeps.lacks (Nat.le_refl _)
          rw [keeps.remaining, remaining] at remains
          exact .pending (.mk lent rfl remains (.inl rfl)) (Nat.lt_of_lt_of_le less spent)
        | @ended next error keeps short enough kind =>
          refine .error ?_ (fun _ => words enough) (unsure keeps)
          rw [cut short]
          exact .cut rfl rfl kind
        | @refused next error keeps enough refuses large =>
          refine .error (.refused refuses fun good => .inl ?_) (fun _ => words enough) (unsure keeps)
          obtain ⟨ok, small, same⟩ := knows good
          exact same ▸ large ok small (tame good)
        | @error next error keeps irregular =>
          exact .error (.irregular fun good => irregular (knows good).1)
            (fun good => absurd (knows good).1 irregular) (unsure keeps)
    · rw [if_pos visible]
      rcases shown with gone | ⟨sound, shows_⟩
      · exact absurd gone visible
      · refine .shown visible ?_ holds whole
        cases remains with
        | broken past stuck => exact absurd stuck sound.remainingUsize_ne_none
        | sound _ remaining => exact remaining ▸ shows_.starts sound

/-- Consuming what was shown leaves the rest of the contents. -/
theorem Reading.taken {told : Transcript} {cap : Nat} {bytes : Bytes} {this : Session R}
    (reading : Reading trust told cap bytes this) {file : FileReader R}
    (holds : this.file = some file) (fits : told ≠ ⟨[], [], .broken⟩ ∨ file.buffer ≠ [])
    {amt : Nat} (within : amt ≤ file.buffer.length) :
    ∃ next, this.take amt = some next ∧ Reading trust told cap (bytes.drop amt) next := by
  cases reading with
  | @mk padded buffer lent holds' remains shown =>
    obtain rfl : file = ⟨some padded, buffer⟩ := Option.some.inj (holds.symm.trans holds')
    change amt ≤ buffer.length at within
    cases remains with
    | broken past stuck =>
      rcases fits with fits | visible
      · exact absurd past fits
      · rcases shown with none | ⟨sound, _⟩
        · exact absurd none visible
        · exact absurd stuck sound.remainingUsize_ne_none
    | sound sound remaining mark whole cut knows tame spent =>
      have consumed : ∃ next, padded.consumePadded amt = some next ∧
          PaddedReader.Consumed padded next amt ∧
          (buffer.drop amt = [] ∨ (next.Sound ∧ next.Shows (buffer.drop amt))) := by
        rcases shown with none | ⟨_, shows_⟩
        · subst none
          obtain rfl : amt = 0 := Nat.le_zero.mp within
          obtain ⟨next, took, consumed⟩ := PaddedReader.consume_zero sound
          exact ⟨next, took, consumed, .inl rfl⟩
        · obtain ⟨next, took, consumed, shows'⟩ := PaddedReader.consume_shown sound shows_ within
          exact ⟨next, took, consumed, .inr ⟨consumed.sound, shows'⟩⟩
      obtain ⟨next, took, consumed, shown'⟩ := consumed
      have remains := Remains.kept mark whole cut
        (knows.next consumed.regular consumed.chunk consumed.limit)
        (fun good => consumed.tame (tame good)) consumed.sound consumed.left consumed.complete
        consumed.lacks (Nat.le_trans consumed.budget spent)
      rw [consumed.remaining, remaining] at remains
      refine ⟨{ this with file := some ⟨some next, buffer.drop amt⟩ }, ?_,
        .mk lent rfl remains shown'⟩
      simp only [Session.take, holds, if_neg (Nat.not_lt.mpr within), took, Option.map_some]

/-- Dropping the file reader sends its contents back. -/
theorem Reading.dropped {told : Transcript} {cap : Nat} {bytes : Bytes} {this : Session R}
    (reading : Reading trust told cap bytes this) :
    Stands trust told cap this.dropFile.parser ∧ this.dropFile.Released := by
  cases reading with
  | @mk padded buffer lent holds remains shown =>
    simp only [Session.dropFile, holds]
    refine ⟨.returned (.inl rfl) remains, ?_⟩
    intro file same
    cases same

omit [AsyncBytesRead R] [LawfulBytesRead R] in
/-- Dropping a file reader at its end, or none, changes nothing for the parser. -/
theorem Session.Released.dropped {this : Session R} (released : this.Released) :
    this.dropFile.parser = this.parser ∧ this.dropFile.Released := by
  obtain ⟨parser, file⟩ := this
  cases file with
  | none => exact ⟨rfl, released⟩
  | some file =>
    obtain rfl := released file rfl
    exact ⟨rfl, by intro file same; cases same⟩

omit [LawfulBytesRead R] in
/-- A file reader at its end shows nothing more. -/
theorem Session.Released.filled {this : Session R} (released : this.Released) :
    this.fill = (.ready [], this) := by
  obtain ⟨parser, file⟩ := this
  cases file with
  | none => rfl
  | some file =>
    obtain rfl := released file rfl
    rfl

omit [LawfulBytesRead R] in
/-- Nothing can be consumed from a file reader at its end. -/
theorem Session.Released.taken {this : Session R} (released : this.Released) :
    this.take 0 = some this := by
  obtain ⟨parser, file⟩ := this
  cases file with
  | none => rfl
  | some file =>
    obtain rfl := released file rfl
    rfl

/-- A fresh session has the whole archive to tell. -/
theorem Session.start {reader : R} (valid : view.Valid reader) (knows : trust.Knows reader)
    (small : trust.good → (view.visible reader).length ≤ trust.bound) :
    Stands trust (parse none .start (view.unread reader)) (budget reader)
        (Session.new reader).parser ∧
      (Session.new reader).Released := by
  refine ⟨.idle ⟨rfl, valid, knows, ?_, rfl, Nat.le_refl _⟩, ?_⟩
  · intro good
    exact Nat.le_trans (small good) (Nat.le_add_left _ _)
  · intro file same
    cases same

end Harmonia.Nar
