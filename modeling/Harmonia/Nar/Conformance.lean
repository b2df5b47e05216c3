import Mathlib.Data.List.Basic
import Mathlib.Algebra.Order.Ring.Nat
import Harmonia.Nar.Reader
import Harmonia.Nar.Story

/-!
# The reader against the grammar

A `NarReader` over a buffered source is read to its end. Which archives it accepts, what it
returns and how it fails are compared with the grammar of the format. They agree on every
input without a length above 2⁶⁴ − 8. Such a length the code takes to announce no bytes, so
behind it the reader goes on with what the format counts as contents.
-/

namespace Harmonia.Nar

open Library

/-- Reading a source through a `BufReader` and a `NarReader` to the end. -/
def readNar (capacity : Nat) (rooms : List Nat) (source : Source) :
    ReadEnd (NarReader BufReader) :=
  let reader := NarReader.new (BufReader.new capacity source)
  readToEnd (budget reader + 1) rooms reader []

/-- The result of a read is what the format asks for: exactly the archive that the input
starts with, or the error for an input that is cut off or that is none. -/
structure Conforms (input : Bytes) (result : ReadEnd (NarReader BufReader)) : Prop where
  /-- An archive is returned, and the reader is left behind it. -/
  accepts : ∀ word, Derives fieldAlign .root word → word <+: input →
    ∃ next, result = .done word next ∧ view.unread next.reader = input.drop word.length
  /-- Nothing but an archive is returned. -/
  sound : ∀ word next, result = .done word next → Derives fieldAlign .root word ∧ word <+: input
  /-- An archive that is cut off is reported as such. -/
  truncated : ∀ word, Derives fieldAlign .root word → input <+: word → input ≠ word →
    ∃ error next, result = .failed error next ∧ error.kind = .unexpectedEof
  /-- Anything else is reported as invalid. -/
  invalid : (∀ word, Derives fieldAlign .root word → ¬ word <+: input ∧ ¬ input <+: word) →
    ∃ error next, result = .failed error next ∧ error.kind = .invalidData

/-- The three ways a read comes out, in terms of the code's own alignment. -/
inductive Comes (input : Bytes) : ReadEnd (NarReader BufReader) → Prop
  | archive {word : Bytes} {level : Nat} {next : NarReader BufReader}
    (reads : Reads codeAlign word .finished level) (starts : word <+: input)
    (left : view.unread next.reader = input.drop word.length) : Comes input (.done word next)
  | cut {next : NarReader BufReader} (unfinished : Unfinished codeAlign input) :
    Comes input (.failed notComplete next)
  | other {error : IoError} {next : NarReader BufReader} (kind : error.kind = .invalidData)
    (none : ∀ {word level}, Reads codeAlign word .finished level →
      ¬ word <+: input ∧ ¬ input <+: word) : Comes input (.failed error next)

/-- Reading a source to the end comes out in one of the three ways. -/
theorem readNar_comes {capacity : Nat} (positive : 0 < capacity) (rooms : List Nat)
    {source : Source} (steady : source.Steady) :
    Comes source.stream (readNar capacity rooms source) := by
  have tracks : NarReader.Tracks source.stream [] (NarReader.new (BufReader.new capacity source)) :=
    @NarReader.Tracks.start BufReader _ _ (BufReader.new capacity source) positive steady rfl
  have expected := tracks.readToEnd (budget (NarReader.new (BufReader.new capacity source)) + 1)
    rooms (Nat.lt_succ_self _)
  change NarReader.Expected source.stream (readNar capacity rooms source) at expected
  rcases framing source.stream with
    ⟨word, tail, level, joined, reads, ran⟩ | ⟨s, ran, waits, unfinished⟩ | ⟨s, e, ran, kind⟩
  · have ended : Inner.isEof ⟨.eof, level⟩ = true := rfl
    simp only [NarReader.Expected, ran, ended, ↓reduceIte] at expected
    obtain ⟨next, result, left⟩ := expected
    have starts : word <+: source.stream := ⟨tail, joined.symm⟩
    rw [result, ← List.prefix_iff_eq_take.mp starts]
    exact .archive reads starts left
  · have open_ : s.isEof = false := by simpa [Inner.isEof] using waits
    simp only [NarReader.Expected, ran, open_, Bool.false_eq_true, ↓reduceIte] at expected
    obtain ⟨next, result⟩ := expected
    rw [result]
    exact .cut unfinished
  · simp only [NarReader.Expected, ran] at expected
    obtain ⟨next, result⟩ := expected
    rw [result]
    refine .other kind fun {word level} reads => ⟨?_, ?_⟩
    · rintro ⟨tail, joined⟩
      rw [← joined, reads.finishes] at ran
      cases ran
    · rintro ⟨tail, joined⟩
      have failed := (drive_lawful true).run_append_fail _ _ tail ran
      have finished := reads.finishes []
      rw [List.append_nil, ← joined] at finished
      cases (show drive true .start (source.stream ++ tail) = _ from failed).symm.trans finished

/-- With an archive at its start, a read returns it. -/
theorem Comes.of_archive {input : Bytes} {result : ReadEnd (NarReader BufReader)}
    (comes : Comes input result) {word : Bytes} {level : Nat}
    (reads : Reads codeAlign word .finished level) (starts : word <+: input) :
    ∃ next, result = .done word next ∧ view.unread next.reader = input.drop word.length := by
  obtain ⟨tail, rfl⟩ := starts
  cases comes with
  | @archive other _ next found starts left =>
    obtain ⟨tail', joined⟩ := starts
    have one := reads.finishes tail
    have two := found.finishes tail'
    rw [joined, one, Run.done.injEq] at two
    have length : word.length = other.length := two.2
    have same : other = word := (List.append_inj joined length.symm).1
    subst same
    exact ⟨next, rfl, left⟩
  | cut unfinished =>
    obtain ⟨more, _, nonempty, whole⟩ := unfinished
    have one := reads.finishes (tail ++ more)
    have two := whole.finishes []
    rw [List.append_nil, List.append_assoc, one, Run.done.injEq] at two
    have length := two.2
    have positive := List.length_pos_of_ne_nil nonempty
    simp only [List.length_append] at length
    omega
  | other _ none => exact absurd (List.prefix_append word tail) (none reads).1

/-- A read of a proper beginning of an archive says so. -/
theorem Comes.of_unfinished {input : Bytes} {result : ReadEnd (NarReader BufReader)}
    (comes : Comes input result) (unfinished : Unfinished codeAlign input) :
    ∃ next, result = .failed notComplete next := by
  obtain ⟨tail, _, nonempty, whole⟩ := unfinished
  cases comes with
  | archive found starts left =>
    obtain ⟨rest, rfl⟩ := starts
    have one := found.finishes (rest ++ tail)
    have two := whole.finishes []
    rw [List.append_nil, List.append_assoc, one, Run.done.injEq] at two
    have length := two.2
    have positive := List.length_pos_of_ne_nil nonempty
    simp only [List.length_append] at length
    omega
  | @cut next => exact ⟨next, rfl⟩
  | other _ none => exact absurd (List.prefix_append input tail) (none whole).2

/-- Without a length that does not fit, a read conforms to the format. -/
theorem Comes.conforms {input : Bytes} {result : ReadEnd (NarReader BufReader)}
    (comes : Comes input result) (fits : ¬ Oversized fieldAlign input) :
    Conforms input result := by
  have toField {len : UInt64} (fits : Fits len) : codeAlign len = fieldAlign len := codeAlign_eq fits
  have toCode {len : UInt64} (fits : Fits len) : fieldAlign len = codeAlign len :=
    (codeAlign_eq fits).symm
  have fits' : ¬ Oversized codeAlign input := fun past => fits (past.transfer toField)
  refine ⟨?_, ?_, ?_, ?_⟩
  · intro word derived starts
    obtain ⟨level, reads⟩ := derives_root_iff.mp derived
    rcases reads.transfer toCode with reads | past
    · exact comes.of_archive reads starts
    · exact absurd (past.mono starts) fits'
  · intro word next done
    subst done
    cases comes with
    | archive reads starts left =>
      rcases reads.transfer toField with reads | past
      · exact ⟨derives_root_iff.mpr ⟨_, reads⟩, starts⟩
      · exact absurd (past.mono starts) fits
  · rintro word derived ⟨tail, rfl⟩ proper
    obtain ⟨level, reads⟩ := derives_root_iff.mp derived
    have nonempty : tail ≠ [] := by
      rintro rfl
      exact proper (List.append_nil input).symm
    have unfinished : Unfinished fieldAlign input := ⟨tail, level, nonempty, reads⟩
    rcases unfinished.transfer toCode with unfinished | past
    · obtain ⟨next, failed⟩ := comes.of_unfinished unfinished
      exact ⟨notComplete, next, failed, rfl⟩
    · exact absurd past fits'
  · intro unrelated
    cases comes with
    | archive reads starts left =>
      rcases reads.transfer toField with reads | past
      · exact absurd starts (unrelated _ (derives_root_iff.mpr ⟨_, reads⟩)).1
      · exact absurd (past.mono starts) fits
    | cut unfinished =>
      rcases unfinished.transfer toField with ⟨tail, level, _, reads⟩ | past
      · exact absurd (List.prefix_append input tail)
          (unrelated _ (derives_root_iff.mpr ⟨level, reads⟩)).2
      · exact absurd past fits
    | other kind => exact ⟨_, _, rfl, kind⟩

/-- With a length that does not fit, a read conforms to the format exactly when the input is
a proper beginning of an archive in which such lengths announce no bytes. -/
theorem Comes.conforms_iff {input : Bytes} {result : ReadEnd (NarReader BufReader)}
    (comes : Comes input result) (past : Oversized fieldAlign input)
    (small : input.length < 2 ^ 64) : Conforms input result ↔ Unfinished codeAlign input := by
  obtain ⟨tail, level, nonempty, whole⟩ := past.unfinished small
  have derived := derives_root_iff.mpr ⟨level, whole⟩
  constructor
  · intro conforms
    have proper : input ≠ input ++ tail := by
      intro same
      exact nonempty (List.self_eq_append_right.mp same)
    obtain ⟨error, next, failed, kind⟩ :=
      conforms.truncated _ derived (List.prefix_append input tail) proper
    subst failed
    cases comes with
    | cut unfinished => exact unfinished
    | other kind' => exact absurd (kind.symm.trans kind') ErrorKind.noConfusion
  · intro unfinished
    obtain ⟨next, failed⟩ := comes.of_unfinished unfinished
    refine ⟨?_, ?_, fun _ _ _ _ => ⟨notComplete, next, failed, rfl⟩, ?_⟩
    · intro word derived starts
      obtain ⟨level, reads⟩ := derives_root_iff.mp derived
      exact comes.of_archive (reads.short (Nat.lt_of_le_of_lt starts.length_le small)) starts
    · intro word next done
      rw [failed] at done
      cases done
    · intro unrelated
      exact absurd (List.prefix_append input tail) (unrelated _ derived).2

/-- A read to the end conforms to the format when no length exceeds 2⁶⁴ − 8; when one does,
it conforms exactly if the input breaks off inside what the code takes it for. -/
theorem readNar_conforms (input : Bytes) (plan : List Turn) (most capacity : Nat)
    (rooms : List Nat) (steady : Source.Steady ⟨input, plan, most⟩) (positive : 0 < capacity) :
    (¬ Oversized fieldAlign input →
        Conforms input (readNar capacity rooms ⟨input, plan, most⟩)) ∧
      (Oversized fieldAlign input → input.length < 2 ^ 64 →
        (Conforms input (readNar capacity rooms ⟨input, plan, most⟩) ↔
          Unfinished codeAlign input)) := by
  have comes : Comes input (readNar capacity rooms ⟨input, plan, most⟩) :=
    readNar_comes positive rooms steady
  exact ⟨comes.conforms, comes.conforms_iff⟩

/-- A file whose length is 2⁶⁴ − 1 and which ends right behind that length. -/
def wrappedFile : Bytes := tokRoot ++ tokFile ++ toLeBytes 0xFFFFFFFFFFFFFFFF ++ tokPar

/-- The length of that file does not fit. -/
theorem wrappedFile_oversized : Oversized fieldAlign wrappedFile :=
  ⟨tokRoot ++ tokFile, .body .file, 0, 0xFFFFFFFFFFFFFFFF, Reads.start.more (.header .file 0),
    trivial, by decide, List.prefix_append _ _⟩

/-- The code takes that file for an archive with empty contents. -/
theorem wrappedFile_reads : Reads codeAlign wrappedFile .finished 0 := by
  have none : ([] : Bytes).length = codeAlign 0xFFFFFFFFFFFFFFFF := by decide
  have whole := ((Reads.start.more (.header .file 0)).more (.body .file 0 _ [] none)).more .closeRoot
  rwa [List.append_nil] at whole

/-- A reader accepts that file, where the format asks for 2⁶⁴ bytes of contents. -/
theorem readNar_wrappedFile :
    (∃ next, readNar 8192 [] ⟨wrappedFile, [], 0⟩ = .done wrappedFile next) ∧
      ¬ Conforms wrappedFile (readNar 8192 [] ⟨wrappedFile, [], 0⟩) := by
  have positive : 0 < 8192 := by decide
  have steady : Source.Steady ⟨wrappedFile, [], 0⟩ := by decide
  have comes : Comes wrappedFile (readNar 8192 [] ⟨wrappedFile, [], 0⟩) :=
    readNar_comes positive [] steady
  obtain ⟨next, done, _⟩ := comes.of_archive wrappedFile_reads List.prefix_rfl
  refine ⟨⟨next, done⟩, fun conforms => ?_⟩
  have unfinished := (comes.conforms_iff wrappedFile_oversized (by decide +kernel)).mp conforms
  obtain ⟨other, failed⟩ := comes.of_unfinished unfinished
  rw [done] at failed
  cases failed

/-- The reader conforms on an archive that breaks off inside the contents of its file, and on the file above
its failure is the one the condition predicts. -/
theorem readNar_conforms_samples :
    Conforms (smallArchive.take 260) (readNar 16 [5, 3] ⟨smallArchive.take 260, [.data 7, .pending], 3⟩) ∧
      (Conforms wrappedFile (readNar 8192 [] ⟨wrappedFile, [.data 6, .pending], 0⟩) ↔
        Unfinished codeAlign wrappedFile) := by
  have fits : ¬ Oversized fieldAlign (smallArchive.take 260) := by
    intro past
    apply smallArchive_begins.not_oversized []
    exact past.mono ((List.take_prefix _ _).trans (List.prefix_append _ _))
  exact ⟨(readNar_conforms (smallArchive.take 260) [.data 7, .pending] 3 16 [5, 3] (by decide +kernel)
      (by decide)).1 fits,
    (readNar_conforms wrappedFile [.data 6, .pending] 0 8192 [] (by decide) (by decide)).2
      wrappedFile_oversized (by decide +kernel)⟩

end Harmonia.Nar
