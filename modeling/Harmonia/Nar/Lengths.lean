import Mathlib.Data.List.Basic
import Mathlib.Algebra.Order.Ring.Nat
import Harmonia.Nar.Grammar

/-!
# Lengths that wrap

The format rounds a length up to a multiple of eight as a mathematical integer; the code
rounds it up in a machine word, where the seven largest lengths wrap to zero. Two alignments
that agree on the lengths that fit read the same bytes until a length that does not fit is
reached (`Oversized`).
-/

namespace Harmonia.Nar

/-- The size of a field in the format: `n` bytes and `-n mod 8` bytes of padding. -/
def fieldAlign (len : UInt64) : Nat := len.toNat + (8 - len.toNat % 8) % 8

/-- The code aligns a length that fits as the format does. -/
theorem codeAlign_eq {len : UInt64} (fits : Fits len) : codeAlign len = fieldAlign len := by
  rw [codeAlign, calcAligned_fits fits, alignNat, fieldAlign]
  omega

/-- In the format a length that does not fit asks for as many bytes as there are words. -/
theorem fieldAlign_wraps {len : UInt64} (wraps : ¬ Fits len) : 2 ^ 64 ≤ fieldAlign len := by
  unfold Fits at wraps
  unfold fieldAlign
  omega

/-- A place in front of a length word. -/
def Place.Measures : Place → Prop
  | .body _ | .name => True
  | _ => False

/-- The input holds, where a length is due, one that does not fit. -/
def Oversized (align : UInt64 → Nat) (input : Bytes) : Prop :=
  ∃ word place level len, Reads align word place level ∧ place.Measures ∧ ¬ Fits len ∧
    word ++ toLeBytes len <+: input

/-- The input is a proper beginning of an archive. -/
def Unfinished (align : UInt64 → Nat) (input : Bytes) : Prop :=
  ∃ tail level, tail ≠ [] ∧ Reads align (input ++ tail) .finished level

/-- A length that does not fit stays in every longer input. -/
theorem Oversized.mono {align : UInt64 → Nat} {short long : Bytes} (past : Oversized align short)
    (shorter : short <+: long) : Oversized align long := by
  obtain ⟨word, place, level, len, reads, measures, wraps, within⟩ := past
  exact ⟨word, place, level, len, reads, measures, wraps, within.trans shorter⟩

/-- Every place lies behind the first token. -/
theorem Reads.length_le {align : UInt64 → Nat} {word : Bytes} {place : Place} {level : Nat}
    (reads : Reads align word place level) : tokRoot.length ≤ word.length := by
  induction reads with
  | start => exact Nat.le_refl _
  | more before step ih =>
    rw [List.length_append]
    omega

/-- No length is reached within the first token and seven bytes. -/
theorem Oversized.length_le {align : UInt64 → Nat} {input : Bytes} (past : Oversized align input) :
    tokRoot.length + 8 ≤ input.length := by
  obtain ⟨word, place, level, len, reads, measures, wraps, within⟩ := past
  have behind := reads.length_le
  have inside := within.length_le
  rw [List.length_append, toLeBytes_length] at inside
  omega

section Transfer

variable {align other : UInt64 → Nat} (agree : ∀ {len}, Fits len → align len = other len)

include agree

/-- A part is a part for the other alignment too, unless its length does not fit. -/
theorem Part.transfer {place next : Place} {level after : Nat} {part : Bytes}
    (step : Part align place level part next after) :
    Part other place level part next after ∨
      ∃ len, place.Measures ∧ ¬ Fits len ∧ toLeBytes len <+: part := by
  cases step with
  | header nodeType => exact .inl (.header nodeType level)
  | directory => exact .inl (.directory level)
  | body nodeType _ len payload sized =>
    by_cases fits : Fits len
    · exact .inl (.body nodeType level len payload (sized.trans (agree fits)))
    · exact .inr ⟨len, trivial, fits, List.prefix_append _ _⟩
  | closeRoot => exact .inl .closeRoot
  | close level => exact .inl (.close level)
  | entry => exact .inl (.entry level)
  | name _ len payload sized =>
    by_cases fits : Fits len
    · exact .inl (.name level len payload (sized.trans (agree fits)))
    · exact .inr ⟨len, trivial, fits, List.prefix_append _ _⟩
  | mark => exact .inl (.mark level)
  | closeEntry => exact .inl (.closeEntry level)
  | closeRootDirectory => exact .inl .closeRootDirectory
  | closeDirectory level => exact .inl (.closeDirectory level)

/-- What is read with one alignment is read with the other, unless a length does not fit. -/
theorem Reads.transfer {word : Bytes} {place : Place} {level : Nat}
    (reads : Reads align word place level) :
    Reads other word place level ∨ Oversized other word := by
  induction reads with
  | start => exact .inl .start
  | more before step ih =>
    rename_i word part _ _ _ _
    rcases ih with reads | past
    · rcases step.transfer agree with step | ⟨len, measures, wraps, starts⟩
      · exact .inl (reads.more step)
      · exact .inr ⟨_, _, _, len, reads, measures, wraps,
          (List.prefix_append_right_inj word).mpr starts⟩
    · exact .inr (past.mono (List.prefix_append word part))

/-- A length that does not fit is reached with both alignments. -/
theorem Oversized.transfer {input : Bytes} (past : Oversized align input) :
    Oversized other input := by
  obtain ⟨word, place, level, len, reads, measures, wraps, within⟩ := past
  rcases reads.transfer agree with reads | past
  · exact ⟨word, place, level, len, reads, measures, wraps, within⟩
  · exact past.mono ((List.prefix_append word _).trans within)

/-- The beginning of a part begins a part of the other alignment too, unless its length does
not fit. -/
theorem Part.transfer_open {place next : Place} {level after : Nat} {front tail : Bytes}
    (step : Part align place level (front ++ tail) next after) (more : tail ≠ []) :
    (∃ tail, tail ≠ [] ∧ Part other place level (front ++ tail) next after) ∨
      ∃ len, place.Measures ∧ ¬ Fits len ∧ toLeBytes len <+: front := by
  -- A field is cut inside its length word, where any length goes on, or behind it.
  have field {len : UInt64} {payload : Bytes} (sized : payload.length = align len)
      (spelled : toLeBytes len ++ payload = front ++ tail) :
      (∃ len payload tail, tail ≠ [] ∧ payload.length = other len ∧
          toLeBytes len ++ payload = front ++ tail) ∨
        ∃ len, ¬ Fits len ∧ toLeBytes len <+: front := by
    by_cases short : front.length < 8
    · have eight : (front ++ List.replicate (8 - front.length) 0).length = 8 := by simp; omega
      refine .inl ⟨fromLeBytes (front ++ List.replicate (8 - front.length) 0),
        List.replicate (other (fromLeBytes (front ++ List.replicate (8 - front.length) 0))) 0,
        List.replicate (8 - front.length) 0 ++ List.replicate
          (other (fromLeBytes (front ++ List.replicate (8 - front.length) 0))) 0,
        ?_, List.length_replicate, ?_⟩
      · intro empty
        have none := (List.append_eq_nil_iff.mp empty).1
        rw [List.replicate_eq_nil_iff] at none
        omega
      · rw [toLeBytes_fromLeBytes eight, List.append_assoc]
    · by_cases fits : Fits len
      · exact .inl ⟨len, payload, tail, more, sized.trans (agree fits), spelled⟩
      · refine .inr ⟨len, fits, ?_⟩
        have starts : toLeBytes len <+: front ++ tail := ⟨payload, spelled⟩
        refine List.prefix_of_prefix_length_le starts (List.prefix_append front tail) ?_
        rw [toLeBytes_length]
        omega
  generalize spelled : front ++ tail = part at step
  cases step with
  | body nodeType _ len payload sized =>
    rcases field sized spelled.symm with ⟨len, payload, tail, more, sized, spelled⟩ | past
    · exact .inl ⟨tail, more, spelled ▸ .body nodeType level len payload sized⟩
    · obtain ⟨len, wraps, starts⟩ := past
      exact .inr ⟨len, trivial, wraps, starts⟩
  | name _ len payload sized =>
    rcases field sized spelled.symm with ⟨len, payload, tail, more, sized, spelled⟩ | past
    · exact .inl ⟨tail, more, spelled ▸ .name level len payload sized⟩
    · obtain ⟨len, wraps, starts⟩ := past
      exact .inr ⟨len, trivial, wraps, starts⟩
  | header nodeType => exact .inl ⟨tail, more, spelled ▸ .header nodeType level⟩
  | directory => exact .inl ⟨tail, more, spelled ▸ .directory level⟩
  | closeRoot => exact .inl ⟨tail, more, spelled ▸ .closeRoot⟩
  | close level => exact .inl ⟨tail, more, spelled ▸ .close level⟩
  | entry => exact .inl ⟨tail, more, spelled ▸ .entry level⟩
  | mark => exact .inl ⟨tail, more, spelled ▸ .mark level⟩
  | closeEntry => exact .inl ⟨tail, more, spelled ▸ .closeEntry level⟩
  | closeRootDirectory => exact .inl ⟨tail, more, spelled ▸ .closeRootDirectory⟩
  | closeDirectory level => exact .inl ⟨tail, more, spelled ▸ .closeDirectory level⟩

omit agree in
/-- Where bytes are cut that lead to a place: inside the first token, or inside a part. -/
theorem Reads.cut {whole : Bytes} {place : Place} {level : Nat}
    (reads : Reads align whole place level) {front tail : Bytes} (more : tail ≠ [])
    (joined : front ++ tail = whole) :
    (∃ rest, rest ≠ [] ∧ front ++ rest = tokRoot) ∨
      ∃ word part rest place level next after, Reads align word place level ∧ rest ≠ [] ∧
        front = word ++ part ∧ Part align place level (part ++ rest) next after := by
  induction reads generalizing tail with
  | start => exact .inl ⟨tail, more, joined⟩
  | @more word part place next level after before step ih =>
    by_cases shorter : front.length < word.length
    · obtain ⟨rest, split⟩ : front <+: word :=
        List.prefix_of_prefix_length_le ⟨tail, joined⟩ (List.prefix_append word part)
          (Nat.le_of_lt shorter)
      have nonempty : rest ≠ [] := by
        rintro rfl
        rw [List.append_nil] at split
        rw [split] at shorter
        exact Nat.lt_irrefl _ shorter
      exact ih nonempty split
    · obtain ⟨inside, split⟩ : word <+: front :=
        List.prefix_of_prefix_length_le (List.prefix_append word part) ⟨tail, joined⟩
          (Nat.le_of_not_lt shorter)
      rw [← split, List.append_assoc, List.append_cancel_left_eq] at joined
      exact .inr ⟨word, inside, tail, place, level, next, after, before, more, split.symm,
        joined ▸ step⟩

/-- A proper beginning of an archive is one with the other alignment, unless it holds a
length that does not fit. -/
theorem Unfinished.transfer {input : Bytes} (unfinished : Unfinished align input) :
    Unfinished other input ∨ Oversized other input := by
  obtain ⟨tail, level, more, complete⟩ := unfinished
  rcases complete.cut more rfl with
    ⟨rest, more, joined⟩ | ⟨word, part, rest, place, level, next, after, reads, more, rfl, step⟩
  · obtain ⟨further, final, whole⟩ := (@Reads.start other).completes
    rw [← joined, List.append_assoc] at whole
    exact .inl ⟨rest ++ further, final, List.append_ne_nil_of_left_ne_nil more further, whole⟩
  · rcases reads.transfer agree with reads | past
    · rcases step.transfer_open agree more with
        ⟨rest, more, step⟩ | ⟨len, measures, wraps, starts⟩
      · obtain ⟨further, final, whole⟩ := (reads.more step).completes
        refine .inl ⟨rest ++ further, final, List.append_ne_nil_of_left_ne_nil more further, ?_⟩
        simpa only [List.append_assoc] using whole
      · exact .inr ⟨word, place, level, len, reads, measures, wraps,
          (List.prefix_append_right_inj word).mpr starts⟩
    · exact .inr (past.mono (List.prefix_append word part))

end Transfer

/-- A part shorter than a machine word can count has no length that wraps. -/
theorem Part.short {place next : Place} {level after : Nat} {part : Bytes}
    (step : Part fieldAlign place level part next after) (small : part.length < 2 ^ 64) :
    Part codeAlign place level part next after := by
  have field {len : UInt64} {payload : Bytes} (sized : payload.length = fieldAlign len)
      (small : (toLeBytes len ++ payload).length < 2 ^ 64) : payload.length = codeAlign len := by
    rw [List.length_append] at small
    rw [sized, codeAlign_eq]
    by_contra wraps
    have large := fieldAlign_wraps wraps
    omega
  cases step with
  | header nodeType => exact .header nodeType level
  | directory => exact .directory level
  | body nodeType _ len payload sized =>
    exact .body nodeType level len payload (field sized small)
  | closeRoot => exact .closeRoot
  | close level => exact .close level
  | entry => exact .entry level
  | name _ len payload sized => exact .name level len payload (field sized small)
  | mark => exact .mark level
  | closeEntry => exact .closeEntry level
  | closeRootDirectory => exact .closeRootDirectory
  | closeDirectory level => exact .closeDirectory level

/-- Bytes fewer than a machine word can count are read alike. -/
theorem Reads.short {word : Bytes} {place : Place} {level : Nat}
    (reads : Reads fieldAlign word place level) (small : word.length < 2 ^ 64) :
    Reads codeAlign word place level := by
  induction reads with
  | start => exact .start
  | more before step ih =>
    rw [List.length_append] at small
    exact (ih (by omega)).more (step.short (by omega))

/-- A length that does not fit asks for more bytes than a short input has. -/
theorem Oversized.unfinished {input : Bytes} (past : Oversized fieldAlign input)
    (small : input.length < 2 ^ 64) : Unfinished fieldAlign input := by
  obtain ⟨word, place, level, len, reads, measures, wraps, rest, rfl⟩ := past
  have large := fieldAlign_wraps wraps
  have short : rest.length < fieldAlign len := by
    rw [List.length_append] at small
    omega
  have sized : (rest ++ List.replicate (fieldAlign len - rest.length) 0).length =
      fieldAlign len := by
    rw [List.length_append, List.length_replicate]
    omega
  have more : List.replicate (fieldAlign len - rest.length) (0 : UInt8) ≠ [] := by
    rw [Ne, List.replicate_eq_nil_iff]
    omega
  have completed {next : Place} (step : Part fieldAlign place level
      (toLeBytes len ++ (rest ++ List.replicate (fieldAlign len - rest.length) 0)) next level) :
      Unfinished fieldAlign (word ++ toLeBytes len ++ rest) := by
    obtain ⟨further, after, whole⟩ := (reads.more step).completes
    refine ⟨List.replicate (fieldAlign len - rest.length) 0 ++ further, after,
      List.append_ne_nil_of_left_ne_nil more further, ?_⟩
    simpa only [List.append_assoc] using whole
  cases place with
  | body nodeType => exact completed (.body nodeType level len _ sized)
  | name => exact completed (.name level len _ sized)
  | _ => exact measures.elim

end Harmonia.Nar
