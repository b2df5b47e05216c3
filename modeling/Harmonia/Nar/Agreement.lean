import Mathlib.Data.List.Basic
import Mathlib.Algebra.Order.Ring.Nat
import Harmonia.Io.BytesReader
import Harmonia.Nar.Conformance
import Harmonia.Nar.Consumer

/-!
# The parser and the reader agree

The parser tells the contents of an archive and `NarReader` passes its bytes through. Over
the same bytes both come to a clean end at the same place, or both fail. The parser alone has
to hold a whole name or target, and up to eight bytes more than one read, in its buffer; it is
the only one to fail when that is more than the buffer may hold.
-/

namespace Harmonia.Nar

open Library

/-- Reading a source through a `BytesReader` and a `NarParser`. -/
def parseNar (reservedBufSize maxBufSize : Nat) (appetites : List Appetite) (source : Source) :
    Outcome BytesReader :=
  readEvents appetites (BytesReader.build reservedBufSize maxBufSize true source)

/-- What may be relied on with a source that does not fail. -/
def steadyTrust (reservedBufSize maxBufSize : Nat) (source : Source) : Trust where
  good := True
  bound := source.largest
  limit := maxBufSize - reservedBufSize

/-- Reading a source that does not fail gives the transcript of its bytes. -/
theorem parseNar_collects {reserved limit : Nat} (appetites : List Appetite) {source : Source}
    (steady : source.Steady) (positive : 0 < reserved) (room : reserved * 2 ≤ limit) :
    Collects (steadyTrust reserved limit source) (parse none .start source.stream) appetites []
      (parseNar reserved limit appetites source) := by
  have sound := BytesReader.build_sound positive limit true source
  have knows : (steadyTrust reserved limit source).Knows
      (BytesReader.build reserved limit true source) := fun _ =>
    ⟨⟨steady, room, rfl⟩, Nat.le_refl _, rfl⟩
  exact readEvents_collects appetites sound knows fun _ => Nat.zero_le _

/-- How a parser and a reader of the same input come out together. -/
inductive Agrees (limit chunk : Nat) (input : Bytes) :
    Outcome BytesReader → ReadEnd (NarReader BufReader) → Prop
  /-- Both come to a clean end, behind the same bytes. -/
  | clean {log : List (NarEvent Served)} {session : Session BytesReader} {reader : BytesReader}
    {word rest : Bytes} {next : NarReader BufReader} (joined : input = word ++ rest)
    (holds : session.parser.reader = .available reader) (parsed : view.unread reader = rest)
    (read : view.unread next.reader = rest) :
    Agrees limit chunk input (.ended log session) (.done word next)
  /-- The parser needs a larger buffer than it may have. -/
  | refused {log : List (NarEvent Served)} {inFile : Bool} {capacity : Nat} {word : Bytes}
    {next : NarReader BufReader}
    (large : limit < chunk + 8 ∨ ∃ size ∈ (parse none .start input).fields, limit < size) :
    Agrees limit chunk input (.failed log inFile (BytesReader.tooLarge capacity)) (.done word next)
  /-- Both fail. -/
  | failed {log : List (NarEvent Served)} {inFile : Bool} {error error' : IoError}
    {next : NarReader BufReader} :
    Agrees limit chunk input (.failed log inFile error) (.failed error' next)

/-- An archive of the code's own grammar has a transcript with a clean ending. -/
theorem Reads.clean {word : Bytes} {level : Nat} (reads : Reads codeAlign word .finished level)
    {rest : Bytes} (fits : ¬ Oversized codeAlign (word ++ rest)) :
    (parse none .start (word ++ rest)).ending = .clean rest := by
  obtain ⟨name, events, fields, begins⟩ :=
    reads.begins fun past => fits (past.mono (List.prefix_append word rest))
  rw [begins.parsed, Place.state, parse_eof]
  rfl

/-- Where no archive is read, the parser fails too. -/
theorem Collects.agrees_failed {trust : Trust} {limit chunk : Nat} {input : Bytes}
    {appetites : List Appetite} {parsed : Outcome BytesReader} {error : IoError}
    {next : NarReader BufReader}
    (collects : Collects trust (parse none .start input) appetites [] parsed)
    (comes : Comes input (.failed error next)) (fits : ¬ Oversized codeAlign input) :
    Agrees limit chunk input parsed (.failed error next) := by
  cases collects with
  | ended recounts holds =>
    obtain ⟨events, fields, told, _⟩ := recounts.split
    obtain ⟨bytes, events, fields, joined, story⟩ := parse_clean (congrArg Transcript.ending told)
    obtain ⟨level, reads⟩ := story.reads Reads.start
    obtain ⟨next, done, _⟩ := comes.of_archive reads ⟨_, joined.symm⟩
    cases done
  | failed recounts fails => exact .failed
  | file recounts fails words => exact .failed
  | panicked past => exact absurd past (parse_unbroken fits)

/-- A transcript and a read of the same bytes come out together. -/
theorem Collects.agrees {reserved limit : Nat} {appetites : List Appetite} {source : Source}
    {parsed : Outcome BytesReader} {read : ReadEnd (NarReader BufReader)}
    (collects : Collects (steadyTrust reserved limit source) (parse none .start source.stream)
      appetites [] parsed)
    (comes : Comes source.stream read) (fits : ¬ Oversized codeAlign source.stream) :
    Agrees (limit - reserved) source.largest source.stream parsed read := by
  cases comes with
  | @archive word level next reads starts left =>
    obtain ⟨rest, joined⟩ := starts
    rw [← joined] at fits
    have clean := reads.clean fits
    rw [joined] at clean
    rw [← joined, List.drop_left] at left
    rcases collects.of_clean clean trivial with
      ⟨more, session, reader, rfl, _, holds, unread⟩ |
        ⟨more, inFile, error, rfl, ⟨capacity, rfl⟩, large⟩
    · exact .clean joined.symm holds unread left
    · exact .refused large
  | cut unfinished => exact collects.agrees_failed (.cut unfinished) fits
  | other kind none => exact collects.agrees_failed (.other kind none) fits

/-- Over an input without a length above 2⁶⁴ − 8 the parser and the reader come out together,
however the two read it. -/
theorem parseNar_agrees (input : Bytes) (fits : ¬ Oversized fieldAlign input)
    (reserved limit : Nat) (positive : 0 < reserved) (room : reserved * 2 ≤ limit)
    (appetites : List Appetite) (plan : List Turn) (most : Nat)
    (steady : Source.Steady ⟨input, plan, most⟩) (capacity : Nat) (holds : 0 < capacity)
    (rooms : List Nat) (plan' : List Turn) (most' : Nat)
    (steady' : Source.Steady ⟨input, plan', most'⟩) :
    Agrees (limit - reserved) (Source.largest ⟨input, plan, most⟩) input
      (parseNar reserved limit appetites ⟨input, plan, most⟩)
      (readNar capacity rooms ⟨input, plan', most'⟩) := by
  have toField {len : UInt64} (fits : Fits len) : codeAlign len = fieldAlign len := codeAlign_eq fits
  have collects := @parseNar_collects reserved limit appetites ⟨input, plan, most⟩ steady positive room
  have comes : Comes input (readNar capacity rooms ⟨input, plan', most'⟩) :=
    readNar_comes holds rooms steady'
  exact collects.agrees comes fun past => fits (past.transfer toField)

/-- A symbolic link whose target has forty bytes. -/
def longLink : Bytes :=
  tokRoot ++ tokSym ++ toLeBytes 40 ++ List.replicate 40 0x61 ++ tokPar

/-- The code takes that link for an archive. -/
theorem longLink_reads : Reads codeAlign longLink .finished 0 := by
  have forty : (List.replicate 40 0x61 : Bytes).length = codeAlign 40 := by decide
  have whole := ((Reads.start.more (.header .symlink 0)).more (.body .symlink 0 _ _ forty)).more
    .closeRoot
  simpa only [longLink, NodeType.header, List.append_assoc] using whole

/-- With a small buffer the parser refuses that link, which the reader passes through. -/
theorem parseNar_longLink :
    parseNar 16 32 [] ⟨longLink, [], 0⟩ = .failed [] false (BytesReader.tooLarge 33) ∧
      ∃ next, readNar 8192 [] ⟨longLink, [], 0⟩ = .done longLink next := by
  have positive : 0 < 8192 := by decide
  have steady : Source.Steady ⟨longLink, [], 0⟩ := by decide
  have comes : Comes longLink (readNar 8192 [] ⟨longLink, [], 0⟩) :=
    readNar_comes positive [] steady
  obtain ⟨next, done, _⟩ := comes.of_archive longLink_reads List.prefix_rfl
  exact ⟨by decide +kernel, next, done⟩

/-- The parser and the reader both come to the end of an archive with names, contents and a target, and leave
the same five bytes behind it. -/
theorem parseNar_agrees_smallArchive :
    ∃ log session reader next,
      parseNar 16 64 [⟨[2], false⟩] ⟨smallArchive ++ [7, 0, 0, 0, 9], [.data 2, .pending], 0⟩ =
          .ended log session ∧
        session.parser.reader = .available reader ∧ view.unread reader = [7, 0, 0, 0, 9] ∧
        readNar 16 [4] ⟨smallArchive ++ [7, 0, 0, 0, 9], [.pending], 6⟩ = .done smallArchive next ∧
        view.unread next.reader = [7, 0, 0, 0, 9] := by
  have steady : Source.Steady ⟨smallArchive ++ [7, 0, 0, 0, 9], [.data 2, .pending], 0⟩ := by decide +kernel
  have steady' : Source.Steady ⟨smallArchive ++ [7, 0, 0, 0, 9], [.pending], 6⟩ := by decide +kernel
  have agrees := parseNar_agrees (smallArchive ++ [7, 0, 0, 0, 9])
    (smallArchive_begins.not_oversized [7, 0, 0, 0, 9]) 16 64 (by decide) (by decide) [⟨[2], false⟩]
    [.data 2, .pending] 0 steady 16 (by decide) [4] [.pending] 6 steady'
  have comes : Comes (smallArchive ++ [7, 0, 0, 0, 9])
      (readNar 16 [4] ⟨smallArchive ++ [7, 0, 0, 0, 9], [.pending], 6⟩) := readNar_comes (by decide) [4] steady'
  obtain ⟨next, done, left⟩ := comes.of_archive smallArchive_begins.reads (List.prefix_append _ _)
  rw [List.drop_left] at left
  have told := smallArchive_begins.parsed [7, 0, 0, 0, 9]
  rw [Place.state, parse_eof] at told
  rw [done] at agrees
  generalize ran : parseNar 16 64 [⟨[2], false⟩]
    ⟨smallArchive ++ [7, 0, 0, 0, 9], [.data 2, .pending], 0⟩ = result at agrees
  cases agrees with
  | clean joined holds parsed =>
    have rest := List.append_cancel_left joined
    exact ⟨_, _, _, next, rfl, holds, parsed.trans rest.symm, done, left⟩
  | refused large =>
    rw [told] at large
    exact absurd large (by decide +kernel)

end Harmonia.Nar
