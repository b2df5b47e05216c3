import Mathlib.Data.List.Basic
import Mathlib.Algebra.Order.Ring.Nat
import Harmonia.Nar.Framing

/-!
# The framing automaton does not panic

`drive` indexes tokens and words by the counts in its state and walks its trees from the
cursor in its state. The counts and cursors that a run can produce are `Inner.Valid`; from
those no turn is out of range, whatever the input and in either mode, and a failed run too
leaves a valid state behind. So a slice may be cut wherever one likes, and every further byte is
either used or refused.
-/

namespace Harmonia.Nar

open Library

/-- Counts stay inside their token or word, and cursors inside their tree. -/
def Inner.Valid (inner : Inner) : Prop :=
  match inner.state with
  | .root read => read < tokRoot.length
  | .finishNode read | .finishEntry read => read < tokPar.length
  | .readNode read => read < tokNode.length
  | .selectNode cursor => ∃ word, nodeSelect.Stands nodeLabel cursor word
  | .readEntries cursor => ∃ word, entrySelect.Stands entryLabel cursor word
  | .readContentsLen _ value read | .readEntryNameLen value read => value.length = 8 ∧ read < 8
  | _ => True

/-- A fresh reader is in a valid state. -/
theorem Inner.start_valid : Inner.start.Valid := tokens_nonempty.1

/-- The default cursors are valid. -/
theorem Inner.fresh_valid (level : Nat) :
    Inner.Valid ⟨.selectNode default, level⟩ ∧ Inner.Valid ⟨.readEntries default, level⟩ :=
  ⟨⟨[], nodeSelect_selects.start⟩, ⟨[], entrySelect_selects.start⟩⟩

/-- The state behind a header is valid. -/
theorem headers_valid (level : Nat) :
    ∀ header ∈ nodeHeaders ++ entryHeaders, Inner.Valid ⟨header.2, level⟩ := by
  simp [nodeHeaders, entryHeaders, Inner.Valid, zeros]

/-- A turn keeps to the valid states and does not panic. -/
def Safe : Verdict Inner IoError → Prop
  | .again next _ | .stop next _ => next.Valid
  | .fail _ => True
  | .panic => False

/-- Reading a token is safe. -/
theorem readToken_safe {wait : Nat → InnerState} {tok : Bytes} {read : Nat} {next : InnerState}
    {level : Nat} (within : read < tok.length)
    (valid : ∀ {r}, r < tok.length → Inner.Valid ⟨wait r, level⟩)
    (after : Inner.Valid ⟨next, level⟩) (buf : Bytes) :
    Safe (readToken wait tok read next level buf) := by
  rw [readToken_eq wait (Nat.le_of_lt within)]
  split
  · exact after
  · rename_i long
    split
    · rename_i inside
      apply valid
      have shorter := inside.length_le
      have proper : buf.length ≠ (tok.drop read).length := by
        intro same
        exact long (inside.eq_of_length same ▸ List.prefix_rfl)
      rw [List.length_drop] at shorter proper
      omega
    · trivial

/-- Selecting a header is safe. -/
theorem selectToken_safe {N E B : Nat} {tree : RTree N E B InnerState} {label : Nat → Bytes}
    {headers : List (Bytes × InnerState)} {wait : RLookup → InnerState} {error : IoError}
    {level : Nat} {state : RLookup} (offers : Offers tree label headers)
    (known : ∀ header ∈ headers, header ∈ nodeHeaders ++ entryHeaders)
    (stands : ∃ word, tree.Stands label state word)
    (valid : ∀ {cursor word}, tree.Stands label cursor word → Inner.Valid ⟨wait cursor, level⟩)
    (buf : Bytes) : Safe (selectToken tree wait error state level buf) := by
  obtain ⟨word, stands⟩ := stands
  have decided := @Offers.verdict N E B tree label headers wait error level offers _ _ stands buf
  rcases decided with ⟨header, listed, n, turn⟩ | ⟨next, stands, turn⟩ | turn
  · rw [turn]
    exact headers_valid level header (known header listed)
  · rw [turn]
    exact valid stands
  · rw [turn]
    trivial

/-- Collecting a length is safe. -/
theorem readLen_safe {wait : Bytes → Nat → InnerState} {done : UInt64 → InnerState}
    {value : Bytes} {read level : Nat} (eight : value.length = 8) (within : read < 8)
    (valid : ∀ {v r}, v.length = 8 → r < 8 → Inner.Valid ⟨wait v r, level⟩)
    (after : ∀ len, Inner.Valid ⟨done len, level⟩) (buf : Bytes) :
    Safe (readLen wait done value read level buf) := by
  simp only [readLen]
  rw [if_neg (by omega)]
  split
  · rename_i short
    apply valid _ short
    simp only [List.length_append, List.length_take, List.length_drop]
    omega
  · exact after _

/-- Skipping is safe. -/
theorem skipBytes_safe {wait : UInt64 → InnerState} {next : InnerState} {rem : UInt64}
    {level : Nat} (valid : ∀ r, Inner.Valid ⟨wait r, level⟩) (after : Inner.Valid ⟨next, level⟩)
    (buf : Bytes) : Safe (skipBytes wait next rem level buf) := by
  unfold skipBytes
  split
  · exact valid _
  · exact after

/-- Leaving a body, a name or a directory mark leads to a valid state. -/
theorem Inner.bumpState_valid {inner next : Inner} (bumped : inner.bumpState = some next) :
    next.Valid := by
  obtain ⟨_, par, node⟩ := tokens_nonempty
  obtain ⟨state, level⟩ := inner
  cases state with
  | readContents => cases bumped; exact par
  | readEntryName => cases bumped; exact node
  | readDir => cases bumped; exact (fresh_valid level).2
  | finishReadEntry =>
    simp only [bumpState] at bumped
    split at bumped
    · cases bumped
      exact par
    · cases bumped
      trivial
  | _ => cases bumped

/-- Every turn from a valid state is safe. -/
theorem driveStep_safe {P : Bool} {inner : Inner} (valid : inner.Valid) (buf : Bytes) :
    Safe (driveStep P inner buf) := by
  obtain ⟨_, par, node⟩ := tokens_nonempty
  obtain ⟨state, level⟩ := inner
  cases state with
  | root read => exact readToken_safe valid id (Inner.fresh_valid level).1 buf
  | selectNode cursor =>
    change Safe (selectToken nodeSelect .selectNode couldNotSelect cursor level buf)
    refine selectToken_safe nodeSelect_offers (fun _ => List.mem_append_left _) valid ?_ buf
    exact fun stands => ⟨_, stands⟩
  | readContentsLen nodeType value read =>
    change Safe (readLen (.readContentsLen nodeType)
      (fun len => .readContents nodeType len (calcAligned len)) value read level buf)
    refine readLen_safe valid.1 valid.2 ?_ ?_ buf
    · exact fun eight within => ⟨eight, within⟩
    · exact fun _ => trivial
  | readContents nodeType size rem =>
    cases P with
    | true =>
      change Safe (skipBytes (.readContents nodeType size) (.finishNode 0) rem level buf)
      apply skipBytes_safe
      · exact fun _ => trivial
      · exact par
    | false => trivial
  | finishNode read =>
    refine readToken_safe valid id ?_ buf
    split
    · exact par
    · trivial
  | readDir =>
    cases P with
    | true => exact (Inner.fresh_valid (level + 1)).2
    | false => trivial
  | finishEntry read => exact readToken_safe valid id (Inner.fresh_valid level).2 buf
  | readEntries cursor =>
    change Safe (selectToken entrySelect .readEntries couldNotReadEntry cursor level buf)
    refine selectToken_safe entrySelect_offers (fun _ => List.mem_append_right _) valid ?_ buf
    exact fun stands => ⟨_, stands⟩
  | finishReadEntry =>
    cases P with
    | true =>
      have bumps : ∃ next, Inner.bumpState ⟨.finishReadEntry, level⟩ = some next := by
        simp only [Inner.bumpState]
        split <;> exact ⟨_, rfl⟩
      obtain ⟨next, bumped⟩ := bumps
      change Safe (bumpAgain ⟨.finishReadEntry, level⟩)
      rw [bumpAgain, bumped]
      exact Inner.bumpState_valid bumped
    | false => trivial
  | readEntryNameLen value read =>
    change Safe (readLen .readEntryNameLen
      (fun len => .readEntryName len (calcAligned len)) value read level buf)
    refine readLen_safe valid.1 valid.2 ?_ ?_ buf
    · exact fun eight within => ⟨eight, within⟩
    · exact fun _ => trivial
  | readEntryName len rem =>
    cases P with
    | true =>
      change Safe (skipBytes (.readEntryName len) (.readNode 0) rem level buf)
      apply skipBytes_safe
      · exact fun _ => trivial
      · exact node
    | false => trivial
  | readNode read => exact readToken_safe valid id (Inner.fresh_valid level).1 buf
  | eof => trivial

/-- From a valid state `drive` does not panic, and leaves a valid state. -/
theorem drive_safe (P : Bool) {inner : Inner} (valid : inner.Valid) (buf : Bytes) :
    (∃ next n, drive P inner buf = .done next n ∧ next.Valid) ∨
      (∃ next e, drive P inner buf = .fail next e ∧ next.Valid) := by
  refine (drive_lawful P).run_invariant Inner.Valid ?_ ?_ ?_ inner buf valid
  · intro s buf s' n valid turn
    have safe := driveStep_safe (P := P) valid buf
    change driveStep P s buf = _ at turn
    rwa [turn] at safe
  · intro s buf s' n valid turn
    have safe := driveStep_safe (P := P) valid buf
    change driveStep P s buf = _ at turn
    rwa [turn] at safe
  · intro s buf valid turn
    have safe := driveStep_safe (P := P) valid buf
    change driveStep P s buf = _ at turn
    rwa [turn] at safe

/-! ## Slices -/

/-- The states that `drive` leaves a fresh reader in, slice after slice. -/
inductive Reached : Inner → Prop where
  | start : Reached .start
  | done {inner next : Inner} {buf : Bytes} {used : Nat} (before : Reached inner)
      (ran : drive true inner buf = .done next used) : Reached next
  | failed {inner next : Inner} {buf : Bytes} {error : IoError} (before : Reached inner)
      (ran : drive true inner buf = .fail next error) : Reached next

/-- Every state that is reached is valid. -/
theorem Reached.valid {inner : Inner} (reached : Reached inner) : inner.Valid := by
  induction reached with
  | start => exact Inner.start_valid
  | @done _ _ buf _ _ ran ih =>
    rcases drive_safe true ih buf with ⟨next, n, same, valid⟩ | ⟨next, e, same, _⟩
    · rw [ran, Run.done.injEq] at same
      exact same.1 ▸ valid
    · cases ran.symm.trans same
  | @failed _ _ buf _ _ ran ih =>
    rcases drive_safe true ih buf with ⟨next, n, same, _⟩ | ⟨next, e, same, valid⟩
    · cases ran.symm.trans same
    · rw [ran, Run.fail.injEq] at same
      exact same.1 ▸ valid

/-- Nothing is wrong with no bytes. -/
theorem driveStep_nil (P : Bool) (inner : Inner) (error : IoError) :
    driveStep P inner [] ≠ .fail error := by
  have token (wait : Nat → InnerState) (tok : Bytes) (read : Nat) (next : InnerState) (level : Nat) :
      readToken wait tok read next level [] ≠ .fail error := by
    unfold readToken
    split
    · rintro ⟨⟩
    · simp only [List.length_nil, Nat.min_zero, List.take_zero]
      rw [if_neg fun wrong => wrong rfl]
      split <;> rintro ⟨⟩
  have select {N E B : Nat} (tree : RTree N E B InnerState) (wait : RLookup → InnerState)
      (refused : IoError) (state : RLookup) (level : Nat) :
      selectToken tree wait refused state level [] ≠ .fail error := by
    unfold selectToken
    split
    · split <;> rintro ⟨⟩
    · rintro ⟨⟩
    · rename_i looked
      rw [RTree.lookup] at looked
      cases settled : tree.settle state with
      | none => simp [settled] at looked
      | some cursor =>
        cases cursor with
        | edge idx read => simp [settled] at looked
        | node idx =>
          cases found : tree.nodes[idx]? with
          | none => simp [settled, found] at looked
          | some node => cases node <;> simp [settled, found] at looked
    · rintro ⟨⟩
  have length (wait : Bytes → Nat → InnerState) (done : UInt64 → InnerState) (value : Bytes)
      (read level : Nat) : readLen wait done value read level [] ≠ .fail error := by
    simp only [readLen]
    split
    · rintro ⟨⟩
    · split <;> rintro ⟨⟩
  have skip (wait : UInt64 → InnerState) (next : InnerState) (rem : UInt64) (level : Nat) :
      skipBytes wait next rem level [] ≠ .fail error := by
    unfold skipBytes
    split <;> rintro ⟨⟩
  obtain ⟨state, level⟩ := inner
  cases state with
  | root read => exact token _ _ _ _ _
  | selectNode cursor => exact select _ _ _ _ _
  | readContentsLen nodeType value read =>
    exact length (.readContentsLen nodeType) (fun len => .readContents nodeType len (calcAligned len))
      value read level
  | readContents nodeType size rem =>
    cases P with
    | true => exact skip _ _ _ _
    | false => rintro ⟨⟩
  | finishNode read => exact token _ _ _ _ _
  | readDir => cases P <;> rintro ⟨⟩
  | finishEntry read => exact token _ _ _ _ _
  | readEntries cursor => exact select _ _ _ _ _
  | finishReadEntry =>
    cases P with
    | true =>
      show bumpAgain _ ≠ _
      unfold bumpAgain
      split <;> rintro ⟨⟩
    | false => rintro ⟨⟩
  | readEntryNameLen value read =>
    exact length .readEntryNameLen (fun len => .readEntryName len (calcAligned len)) value read level
  | readEntryName len rem =>
    cases P with
    | true => exact skip _ _ _ _
    | false => rintro ⟨⟩
  | readNode read => exact token _ _ _ _ _
  | eof => rintro ⟨⟩

/-- In its skipping mode `drive` halts at the end only. -/
theorem halted_iff (inner : Inner) : Halted true inner ↔ inner.state = .eof := by
  obtain ⟨state, level⟩ := inner
  cases state <;> simp [Halted]

/-- Between two slices nothing is left to be done without a byte, unless the archive has ended. -/
theorem Reached.idle {inner : Inner} (reached : Reached inner) (live : inner.state ≠ .eof) :
    ∃ next used, driveStep true inner [] = .stop next used ∧ ¬ Halted true next := by
  have law := drive_lawful true
  cases reached with
  | start => exact ⟨.start, 0, rfl, id⟩
  | @done before _ buf _ _ ran =>
    have more : ¬ Halted true inner := fun halt => live ((halted_iff inner).mp halt)
    exact ⟨inner, 0, law.step_settled (m := driveMachine true) before buf ran more, more⟩
  | @failed before _ buf _ _ ran =>
    obtain ⟨rest, failed⟩ := law.step_failed (m := driveMachine true) before buf ran
    change driveStep true inner rest = _ at failed
    rcases driveStep_kinds true inner with waits | ⟨next, _, stops⟩ | ⟨next, _, _, moves⟩
    · cases turn : driveStep true inner [] with
      | again next used =>
        have later := (waits.again turn).2.2 rest
        cases later.symm.trans failed
      | stop next used => exact ⟨next, used, rfl, (waits.stop turn).2.1⟩
      | fail error => exact absurd turn (driveStep_nil true inner error)
      | panic =>
        have later := waits.panic turn rest
        cases later.symm.trans failed
    · cases (stops rest).symm.trans failed
    · cases (moves rest).symm.trans failed

/-- However a slice is cut, `drive` does the same, as long as the first part is used up; it leaves
bytes behind at the end of the archive only; and before that it uses a byte of every slice that has
one, or fails. -/
theorem drive_slices {inner : Inner} (reached : Reached inner) (a b : Bytes) :
    drive true inner a ≠ .panic ∧
    (∀ next, drive true inner a = .done next a.length →
      (drive true inner (a ++ b)).Alike ((drive true next b).shift a.length)) ∧
    (∀ next used, drive true inner a = .done next used → used < a.length → next.state = .eof) ∧
    (a ≠ [] → inner.state ≠ .eof → ∀ next used, drive true inner a = .done next used → 0 < used) := by
  have law := drive_lawful true
  refine ⟨?_, ?_, ?_, ?_⟩
  · rcases drive_safe true reached.valid a with ⟨next, n, ran, _⟩ | ⟨next, e, ran, _⟩
    · rw [ran]
      rintro ⟨⟩
    · rw [ran]
      rintro ⟨⟩
  · intro next ran
    by_cases halt : Halted true next
    · have whole := law.run_append_halted (m := driveMachine true) inner a b ran halt
      have ended : driveStep true next b = .stop next 0 := by
        obtain ⟨state, level⟩ := next
        cases (halted_iff ⟨state, level⟩).mp halt
        rfl
      have rest : drive true next b = .done next 0 := law.run_stop (m := driveMachine true) ended
      rw [rest, Run.shift]
      exact whole ▸ Run.Alike.refl _
    · exact law.run_append_more (m := driveMachine true) inner a b ran halt
  · intro next used ran less
    by_contra live
    have whole := (law.run_used (m := driveMachine true) inner a ran).2
      fun halt => live ((halted_iff next).mp halt)
    omega
  · intro some live next used ran
    obtain ⟨waiting, count, idle, more⟩ := reached.idle live
    exact law.run_progress (m := driveMachine true) idle more some ran

/-- The first token cut after five bytes: the cut does not show, and the first byte is used. -/
theorem drive_slices_root :
    (drive true .start (tokRoot.take 5 ++ tokRoot.drop 5)).Alike
        ((drive true ⟨.root 5, 0⟩ (tokRoot.drop 5)).shift (tokRoot.take 5).length) ∧
      ∀ next used, drive true .start (tokRoot.take 5) = .done next used → 0 < used := by
  have cut := drive_slices .start (tokRoot.take 5) (tokRoot.drop 5)
  exact ⟨cut.2.1 _ (by decide +kernel), cut.2.2.2 (by decide +kernel) (by decide)⟩

end Harmonia.Nar
