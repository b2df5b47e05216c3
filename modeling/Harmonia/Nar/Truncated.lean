import Mathlib.Data.List.Basic
import Mathlib.Algebra.Order.Ring.Nat
import Harmonia.Nar.Agreement

/-!
# Files that are cut off

An archive may end in the contents of a file, or in the padding behind them. The file reader
then has to report it. It does when all whole words of the contents are there; when the archive
ends before them, it signals the end of the file as if there were no more.
-/

namespace Harmonia.Nar

open Library

/-- A file has as many bytes as its size says. -/
def NarEvent.Whole : NarEvent Bytes → Prop
  | .file _ _ size bytes => bytes.length = size.toNat
  | _ => True

/-- A file that was read to its end had as many bytes as its size says. -/
def NarEvent.Honest : NarEvent Served → Prop
  | .file _ _ size served => served.ended = true → served.bytes.length = size.toNat
  | _ => True

/-- The read failed, and before that no file ended early. -/
def Outcome.Honest {R : Type} (outcome : Outcome R) : Prop :=
  ∃ log inFile error, outcome = .failed log inFile error ∧ ∀ entry ∈ log, entry.Honest

/-- A file reader reported that the archive ends, and before that no file ended early. -/
def Outcome.Reported {R : Type} (outcome : Outcome R) : Prop :=
  ∃ log error, outcome = .failed log true error ∧ error.kind = .unexpectedEof ∧
    ∀ entry ∈ log, entry.Honest

/-- The files that a part adds are whole. -/
theorem Adds.whole {place next : Place} {level after : Nat} {name name' : Option Bytes}
    {bytes : Bytes} {events : List (NarEvent Bytes)} {fields : List Nat}
    (adds : Adds place level name bytes events fields name' next after) :
    ∀ event ∈ events, event.Whole := by
  cases adds with
  | contents nodeType file _ _ len payload sized fits =>
    have enough := (field_fits fits sized []).2.1
    have aligned : payload.length = (calcAligned len).toNat := sized
    intro event listed
    rw [List.mem_singleton.mp listed, NarEvent.Whole, List.length_take]
    omega
  | target =>
    intro event listed
    rw [List.mem_singleton.mp listed]
    trivial
  | directory =>
    intro event listed
    rw [List.mem_singleton.mp listed]
    trivial
  | closeRootDirectory =>
    intro event listed
    rw [List.mem_singleton.mp listed]
    trivial
  | closeDirectory =>
    intro event listed
    rw [List.mem_singleton.mp listed]
    trivial
  | _ =>
    intro event listed
    cases listed

/-- The files up to a place are whole. -/
theorem Begins.whole {word : Bytes} {place : Place} {level : Nat} {name : Option Bytes}
    {events : List (NarEvent Bytes)} {fields : List Nat}
    (begins : Begins word place level name events fields) : ∀ event ∈ events, event.Whole := by
  induction begins with
  | start =>
    intro event listed
    cases listed
  | more before adds ih =>
    intro event listed
    rcases List.mem_append.mp listed with earlier | added
    · exact ih event earlier
    · exact adds.whole event added

/-- The transcript of an archive that ends in the contents of a file or their padding. -/
theorem Begins.truncated {word : Bytes} {nodeType : NodeType} {level : Nat} {name : Option Bytes}
    {events : List (NarEvent Bytes)} {fields : List Nat}
    (begins : Begins word (.body nodeType) level name events fields) (file : nodeType ≠ .symlink)
    {size : UInt64} {available : Bytes} (short : available.length < fieldAlign size) :
    ∃ executable, parse none .start (word ++ toLeBytes size ++ available) =
      ⟨events ++ [.file (name.getD []) executable size (available.take size.toNat)], fields,
        if Fits size then .cut (breachAt size available) else .broken⟩ := by
  refine ⟨nodeType = .executableFile, ?_⟩
  rw [List.append_assoc, begins.parsed, Place.state, parse_body, Inner.found_file file]
  by_cases fits : Fits size
  · rw [← codeAlign_eq fits, codeAlign, calcAligned_fits fits] at short
    rw [if_neg (not_not.mpr fits), if_pos short, if_pos fits]
    simp [Found.transcript, Transcript.after]
  · rw [if_pos fits, if_neg fits]
    simp [Found.transcript, Transcript.after]

/-! ## What the consumer is told -/

/-- All files but the last are whole. -/
def Transcript.WholeBefore (told : Transcript) : Prop :=
  ∀ front event back, told.events = front ++ event :: back → back ≠ [] → event.Whole

/-- All files but the last of what follows an event are whole too. -/
theorem Transcript.WholeBefore.later {told : Transcript} {event : NarEvent Bytes}
    {fields : List Nat} (whole : (told.after [event] fields).WholeBefore) : told.WholeBefore := by
  intro front other back split more
  refine whole (event :: front) other back ?_ more
  rw [Transcript.after, split]
  rfl

/-- When the archive ends in the last word of a file, no file ends early. -/
theorem Recounts.honest {appetites : List Appetite} {told left : Transcript}
    {log : List (NarEvent Served)} (recounts : Recounts appetites told log left)
    (trailer : told.ending = .cut .trailer) (whole : told.WholeBefore) :
    ∀ entry ∈ log, entry.Honest := by
  induction recounts with
  | nil appetites told =>
    intro entry listed
    cases listed
  | @event _ told _ _ event fields later ih =>
    intro entry listed
    rcases List.mem_cons.mp listed with rfl | below
    · cases event with
      | file _ _ _ none => exact none.elim
      | _ => trivial
    · exact ih trailer whole.later entry below
  | @file _ told _ _ name executable size fields bytes served starts all finishes full later ih =>
    intro entry listed
    rcases List.mem_cons.mp listed with rfl | below
    · intro ended
      -- A file that ended is not the last one, so it was whole.
      have more : told.events ≠ [] := fun none => full ended ⟨none, trailer⟩
      have size := whole [] _ told.events rfl more
      rwa [all ended]
    · exact ih trailer whole.later entry below

/-- A consumer that reads on to the end of a file whose last word is cut off is not told that
the file ended. -/
theorem Recounts.stuck {appetites : List Appetite} {told left : Transcript}
    {log : List (NarEvent Served)} (recounts : Recounts appetites told log left)
    (finishing : ∀ appetite ∈ appetites, appetite.finish = true)
    (trailer : told.ending = .cut .trailer)
    (last : ∃ front name executable size bytes,
      told.events = front ++ [.file name executable size bytes]) :
    left.events ≠ [] := by
  induction recounts with
  | nil appetites told =>
    obtain ⟨front, name, executable, size, bytes, split⟩ := last
    rw [split]
    exact List.append_ne_nil_of_right_ne_nil _ (List.cons_ne_nil _ _)
  | @event _ told _ _ event fields later ih =>
    refine ih finishing trailer ?_
    obtain ⟨front, name, executable, size, bytes, split⟩ := last
    cases front with
    | nil =>
      cases event with
      | file _ _ _ none => exact none.elim
      | _ => cases split
    | cons first front => exact ⟨front, name, executable, size, bytes, (List.cons.inj split).2⟩
  | @file appetites told _ _ name executable size fields bytes served starts all finishes full
      later ih =>
    have finish : (appetites.headD default).finish = true := by
      cases appetites with
      | nil => rfl
      | cons appetite appetites => exact finishing appetite List.mem_cons_self
    refine ih (fun appetite listed => finishing appetite (List.mem_of_mem_tail listed)) trailer ?_
    obtain ⟨front, name', executable', size', bytes', split⟩ := last
    cases front with
    | nil => exact absurd ⟨(List.cons.inj split).2, trailer⟩ (full (finishes finish))
    | cons first front =>
      exact ⟨front, name', executable', size', bytes', (List.cons.inj split).2⟩

/-! ## Reading a truncated archive -/

section Outcomes

variable {R : Type} [AsyncBytesRead R] [LawfulBytesRead R] {trust : Trust} {told : Transcript}
  {appetites : List Appetite} {outcome : Outcome R}

/-- When the archive ends in the last word of a file, no file is said to end early. -/
theorem Collects.honest (collects : Collects trust told appetites [] outcome)
    (trailer : told.ending = .cut .trailer) (whole : told.WholeBefore) : outcome.Honest := by
  cases collects with
  | ended recounts holds =>
    obtain ⟨events, fields, split, _⟩ := recounts.split
    rw [split] at trailer
    cases trailer
  | failed recounts fails => exact ⟨_, _, _, rfl, recounts.honest trailer whole⟩
  | file recounts fails words => exact ⟨_, _, _, rfl, recounts.honest trailer whole⟩
  | panicked past => exact absurd (trailer.symm.trans past) Ending.noConfusion

/-- Where the archive is cut and the buffer holds enough, a failure says so. -/
theorem Fails.of_cut {left : Transcript} {breach : Breach} {error : IoError}
    (fails : Fails R trust left error) (cut : left.ending = .cut breach) (good : trust.good)
    (roomy : trust.bound + 8 ≤ trust.limit) (fields : ∀ size ∈ left.fields, size ≤ trust.limit) :
    left.events = [] ∧ error.kind = .unexpectedEof := by
  cases fails with
  | cut none past kind => exact ⟨none, kind⟩
  | invalid past => exact absurd (cut.symm.trans past) Ending.noConfusion
  | refused refuses large =>
    rcases large good with small | ⟨size, listed, small⟩ | broken
    · exact absurd small (Nat.not_lt.mpr roomy)
    · exact absurd small (Nat.not_lt.mpr (fields size listed))
    · exact absurd (cut.symm.trans broken) Ending.noConfusion
  | irregular bad => exact absurd good bad

/-- When the archive ends in the last word of a file, the file reader reports it. -/
theorem Collects.reported (collects : Collects trust told appetites [] outcome)
    (finishing : ∀ appetite ∈ appetites, appetite.finish = true) (good : trust.good)
    (roomy : trust.bound + 8 ≤ trust.limit) (fields : ∀ size ∈ told.fields, size ≤ trust.limit)
    (trailer : told.ending = .cut .trailer) (whole : told.WholeBefore)
    (last : ∃ front name executable size bytes,
      told.events = front ++ [.file name executable size bytes]) : outcome.Reported := by
  cases collects with
  | ended recounts holds =>
    obtain ⟨events, fields, split, _⟩ := recounts.split
    rw [split] at trailer
    cases trailer
  | failed recounts fails =>
    have stuck := recounts.stuck finishing trailer last
    obtain ⟨events, fields', rfl, _⟩ := recounts.split
    have small size listed := fields size (List.mem_append_right _ listed)
    exact absurd (fails.of_cut trailer good roomy small).1 stuck
  | file recounts fails words =>
    have honest := recounts.honest trailer whole
    obtain ⟨events, fields', rfl, _⟩ := recounts.split
    have small size listed :=
      fields size (List.mem_append_right _ (List.mem_append_right _ listed))
    exact ⟨_, _, rfl, (fails.of_cut trailer good roomy small).2, honest⟩
  | panicked past => exact absurd (trailer.symm.trans past) Ending.noConfusion

/-- When the archive ends before the last word, or its length is too large, the file reader does
not report it. -/
theorem Collects.unreported (collects : Collects trust told appetites [] outcome)
    (good : trust.good) (refusal : ∀ error, (view (R := R)).Refuses error →
      error.kind ≠ .unexpectedEof)
    (words : told.ending = .cut .words ∨ told.ending = .broken) : ¬ outcome.Reported := by
  rintro ⟨log, error, rfl, kind, _⟩
  cases collects with
  | @file more _ left _ _ _ _ _ recounts fails torn =>
    obtain ⟨events, fields, rfl, _⟩ := recounts.split
    change left.ending = _ ∨ left.ending = _ at words
    cases fails with
    | @cut none breach past _ =>
      rcases words with words | broken
      · exact torn good ⟨none, words⟩
      · exact absurd (broken.symm.trans past) Ending.noConfusion
    | invalid past =>
      rcases words with words | broken
      · exact absurd (words.symm.trans past) Ending.noConfusion
      · exact absurd (broken.symm.trans past) Ending.noConfusion
    | refused refuses large => exact refusal _ refuses kind
    | irregular bad => exact bad good

end Outcomes

/-- An input that ends in the contents of a file of some size, or in the padding behind them,
with so much of them available. -/
def Truncated (input : Bytes) (size : UInt64) (available : Bytes) : Prop :=
  ∃ word nodeType level, Reads fieldAlign word (.body nodeType) level ∧ nodeType ≠ .symlink ∧
    input = word ++ toLeBytes size ++ available ∧ available.length < fieldAlign size

/-- A file that is cut off is reported by its reader exactly when all whole words of its
contents are available; then no file is ever said to end early. -/
theorem parseNar_truncated (input : Bytes) (size : UInt64) (available : Bytes)
    (truncated : Truncated input size available) (small : input.length < 2 ^ 64)
    (reserved limit : Nat) (positive : 0 < reserved) (room : reserved * 2 ≤ limit)
    (appetites : List Appetite) (plan : List Turn) (most : Nat)
    (steady : Source.Steady ⟨input, plan, most⟩) :
    (size.toNat / 8 * 8 ≤ available.length →
        (parseNar reserved limit appetites ⟨input, plan, most⟩).Honest) ∧
      ((∀ appetite ∈ appetites, appetite.finish = true) →
        Source.largest ⟨input, plan, most⟩ + 8 ≤ limit - reserved →
        (∀ field ∈ (parse none .start input).fields, field ≤ limit - reserved) →
        ((parseNar reserved limit appetites ⟨input, plan, most⟩).Reported ↔
          size.toNat / 8 * 8 ≤ available.length)) := by
  have collects := @parseNar_collects reserved limit appetites ⟨input, plan, most⟩ steady positive room
  obtain ⟨word, nodeType, level, reads, file, rfl, short⟩ := truncated
  simp only [List.length_append, toLeBytes_length] at small
  obtain ⟨name, events, fields, begins⟩ := reads.begins_short (by omega)
  obtain ⟨executable, told⟩ := begins.truncated file short
  have whole : (parse none .start (word ++ toLeBytes size ++ available)).WholeBefore := by
    intro front event back split more
    rw [told] at split
    obtain ⟨last, back, rfl⟩ : ∃ last before, back = before ++ [last] :=
      ⟨_, _, (List.dropLast_append_getLast more).symm⟩
    rw [← List.cons_append, ← List.append_assoc] at split
    have same := (List.append_inj' split rfl).1
    exact begins.whole event (same ▸ List.mem_append_right _ List.mem_cons_self)
  -- With all whole words available the length fits, and the archive ends in the last word.
  have trailer (words : size.toNat / 8 * 8 ≤ available.length) :
      (parse none .start (word ++ toLeBytes size ++ available)).ending = .cut .trailer := by
    have fits : Fits size := by
      unfold Fits
      omega
    rw [told, if_pos fits, breachAt, if_neg (Nat.not_lt.mpr words)]
  refine ⟨fun words => collects.honest (trailer words) whole, fun finishing roomy fits =>
    ⟨fun reported => ?_, fun words => ?_⟩⟩
  · by_contra early
    refine collects.unreported trivial ?_ ?_ reported
    · rintro error ⟨capacity, rfl⟩
      exact ErrorKind.noConfusion
    · rw [told]
      by_cases fits : Fits size
      · rw [if_pos fits, breachAt, if_pos (Nat.lt_of_not_le early)]
        exact .inl rfl
      · rw [if_neg fits]
        exact .inr rfl
  · exact collects.reported finishing trivial roomy fits (trailer words) whole
      ⟨events, _, _, _, _, congrArg Transcript.events told⟩

/-- An executable file of sixteen bytes, of which eight are there. -/
def shortFile : Bytes := tokRoot ++ tokFileE ++ toLeBytes 16 ++ [1, 2, 3, 4, 5, 6, 7, 8]

/-- The reader of the short file signals its end behind eight bytes; only the parser then fails. -/
theorem parseNar_shortFile :
    parseNar 8192 8388608 [] ⟨shortFile, [], 0⟩ =
        .failed [.file [] true 16 ⟨[1, 2, 3, 4, 5, 6, 7, 8], true⟩] false eofReadingNar ∧
      ¬ (parseNar 8192 8388608 [] ⟨shortFile, [], 0⟩).Reported := by
  have read : parseNar 8192 8388608 [] ⟨shortFile, [], 0⟩ =
      .failed [.file [] true 16 ⟨[1, 2, 3, 4, 5, 6, 7, 8], true⟩] false eofReadingNar := by
    decide +kernel
  refine ⟨read, ?_⟩
  rintro ⟨log, error, same, _⟩
  rw [read] at same
  cases same

/-- Of a file of ten bytes the nine that are there are not taken for all of it. -/
theorem parseNar_truncated_nine :
    (parseNar 8192 8388608 [] ⟨tokRoot ++ tokFile ++ toLeBytes 10 ++ List.replicate 9 0,
      [.data 4, .pending], 2⟩).Reported := by
  have truncated : Truncated (tokRoot ++ tokFile ++ toLeBytes 10 ++ List.replicate 9 0) 10
      (List.replicate 9 0) :=
    ⟨tokRoot ++ tokFile, .file, 0, Reads.start.more (.header .file 0), by decide, rfl, by decide⟩
  refine ((parseNar_truncated _ 10 _ truncated (by decide +kernel) 8192 8388608 (by decide)
    (by decide) [] [.data 4, .pending] 2 (by decide)).2 ?_ (by decide +kernel) ?_).mpr (by decide)
  · intro appetite none
    cases none
  · have begins := Begins.start.more (.header .file 0 none)
    obtain ⟨executable, told⟩ := begins.truncated NodeType.noConfusion
      (show (List.replicate 9 0 : Bytes).length < fieldAlign 10 by decide)
    intro field listed
    have fields := congrArg Transcript.fields told
    change (parse none .start (tokRoot ++ tokFile ++ toLeBytes 10 ++ List.replicate 9 0)).fields =
      [] at fields
    rw [fields] at listed
    cases listed

end Harmonia.Nar
