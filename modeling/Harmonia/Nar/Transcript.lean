import Mathlib.Data.List.Basic
import Mathlib.Algebra.Order.Ring.Nat
import Harmonia.Nar.Lengths
import Harmonia.Nar.Parser

/-!
# What an archive says

The events of an archive as a function of its bytes alone: from a state of the automaton and
the bytes behind it, `parse` gives the events with the contents of their files, the sizes of
the names and targets that had to be gathered, and how the archive ends. It knows nothing of
reads, buffers and lent readers; the parser is compared with it.
-/

namespace Harmonia.Nar

open Library

/-- Where the bytes of an archive stop. -/
inductive Breach where
  /-- In a token, a length, a name or a target. -/
  | markup
  /-- In the whole words of a file's contents. -/
  | words
  /-- In the last word of a file's contents and their padding. -/
  | trailer
  deriving DecidableEq, Repr

/-- How an archive ends. -/
inductive Ending where
  /-- Behind its last parenthesis, in front of other bytes. -/
  | clean (rest : Bytes)
  /-- The bytes stop inside it. -/
  | cut (breach : Breach)
  /-- The bytes are no archive. -/
  | invalid (error : IoError)
  /-- A length is too large for the arithmetic of the code. -/
  | broken
  deriving DecidableEq, Repr

/-- What an archive says. -/
structure Transcript where
  /-- Its events, each file with as much of its contents as there is. -/
  events : List (NarEvent Bytes)
  /-- The aligned sizes of its names and targets. -/
  fields : List Nat
  /-- How it ends. -/
  ending : Ending
  deriving DecidableEq, Repr

/-- Events and fields in front of a transcript. -/
def Transcript.after (later : Transcript) (events : List (NarEvent Bytes)) (fields : List Nat) :
    Transcript :=
  ⟨events ++ later.events, fields ++ later.fields, later.ending⟩

/-- Nothing in front of a transcript. -/
@[simp] theorem Transcript.after_nil (later : Transcript) : later.after [] [] = later := rfl

/-- What is put in front adds up. -/
@[simp] theorem Transcript.after_after (later : Transcript) (events events' : List (NarEvent Bytes))
    (fields fields' : List Nat) : (later.after events' fields').after events fields =
      later.after (events ++ events') (fields ++ fields') := by
  simp [Transcript.after]

/-- What stands at the first state in which the automaton without `P` stops. -/
inductive Found where
  /-- The transcript ends here. -/
  | last (transcript : Transcript)
  /-- It goes on in a state, with a name, behind these bytes. -/
  | more (events : List (NarEvent Bytes)) (fields : List Nat) (name : Option Bytes) (next : Inner)
    (rest : Bytes)

/-- A name or a target that has to be gathered before the transcript goes on. -/
def Found.field (len aligned : UInt64) (behind : Bytes) (more : Found) : Found :=
  if behind.length < aligned.toNat then .last ⟨[], [aligned.toNat], .cut .markup⟩
  else if aligned < len then .last ⟨[], [], .broken⟩
  else more

/-- A field that is all there is found. -/
theorem Found.field_whole {len aligned : UInt64} {behind : Bytes} {more : Found}
    (enough : aligned.toNat ≤ behind.length) (fits : len.toNat ≤ aligned.toNat) :
    Found.field len aligned behind more = more := by
  have inside : ¬ aligned < len := UInt64.not_lt.mpr (UInt64.le_iff_toNat_le.mpr fits)
  rw [Found.field, if_neg (Nat.not_lt.mpr enough), if_neg inside]

/-- Where contents of some size break off. -/
def breachAt (size : UInt64) (behind : Bytes) : Breach :=
  if behind.length < size.toNat / 8 * 8 then .words else .trailer

/-- What stands at a state in which the automaton stopped, in front of the bytes behind it. -/
def Inner.found (name : Option Bytes) (inner : Inner) (behind : Bytes) : Found :=
  match inner.state with
  | .readContents .symlink len aligned =>
    .field len aligned behind (.more [.symlink (name.getD []) (behind.take len.toNat)]
      [aligned.toNat] none ⟨.finishNode 0, inner.level⟩ (behind.drop aligned.toNat))
  | .readContents nodeType size _ =>
    let file := NarEvent.file (name.getD []) (nodeType = .executableFile) size
      (behind.take size.toNat)
    if ¬ Fits size then .last ⟨[file], [], .broken⟩
    else if behind.length < alignNat size.toNat then
      .last ⟨[file], [], .cut (breachAt size behind)⟩
    else .more [file] [] none ⟨.finishNode 0, inner.level⟩ (behind.drop (alignNat size.toNat))
  | .readEntryName len aligned =>
    .field len aligned behind (.more [] [aligned.toNat] (some (behind.take len.toNat))
      ⟨.readNode 0, inner.level⟩ (behind.drop aligned.toNat))
  | .readDir =>
    .more [.startDirectory (name.getD [])] [] none ⟨.readEntries default, inner.level⟩ behind
  | .finishReadEntry =>
    .more [.endDirectory] [] name
      (if inner.level > 1 then ⟨.finishEntry 0, inner.level - 1⟩ else ⟨.eof, inner.level⟩) behind
  | .eof => .last ⟨[], [], .clean behind⟩
  | _ => .last ⟨[], [], .cut .markup⟩

/-- What stands at a target. -/
theorem Inner.found_symlink (name : Option Bytes) (len aligned : UInt64) (level : Nat)
    (behind : Bytes) : Inner.found name ⟨.readContents .symlink len aligned, level⟩ behind =
      .field len aligned behind (.more [.symlink (name.getD []) (behind.take len.toNat)]
        [aligned.toNat] none ⟨.finishNode 0, level⟩ (behind.drop aligned.toNat)) := rfl

/-- What stands at a name. -/
theorem Inner.found_name (name : Option Bytes) (len aligned : UInt64) (level : Nat)
    (behind : Bytes) : Inner.found name ⟨.readEntryName len aligned, level⟩ behind =
      .field len aligned behind (.more [] [aligned.toNat] (some (behind.take len.toNat))
        ⟨.readNode 0, level⟩ (behind.drop aligned.toNat)) := rfl

/-- What stands at a file. -/
theorem Inner.found_file {nodeType : NodeType} (file : nodeType ≠ .symlink) (name : Option Bytes)
    (size aligned : UInt64) (level : Nat) (behind : Bytes) :
    Inner.found name ⟨.readContents nodeType size aligned, level⟩ behind =
      if ¬ Fits size then .last ⟨[.file (name.getD []) (nodeType = .executableFile) size
        (behind.take size.toNat)], [], .broken⟩
      else if behind.length < alignNat size.toNat then .last ⟨[.file (name.getD [])
        (nodeType = .executableFile) size (behind.take size.toNat)], [],
          .cut (breachAt size behind)⟩
      else .more [.file (name.getD []) (nodeType = .executableFile) size
        (behind.take size.toNat)] [] none ⟨.finishNode 0, level⟩
          (behind.drop (alignNat size.toNat)) := by
  cases nodeType <;> first | rfl | exact absurd rfl file

/-- Drive the automaton over some bytes and see what stands where it stops. -/
def Inner.find (name : Option Bytes) (inner : Inner) (input : Bytes) : Found :=
  match drive false inner input with
  | .done next n => next.found name (input.drop n)
  | .fail _ error => .last ⟨[], [], .invalid error⟩
  | .panic => .last ⟨[], [], .broken⟩

/-- A turn that halts without using a byte starts from a state of some rank, or at the end. -/
theorem drive_idle {P : Bool} {inner next : Inner} {input : Bytes}
    (ran : drive P inner input = .done next 0) (halted : Halted P next) :
    0 < driveRank inner ∨ inner.state = .eof := by
  have law := drive_lawful P
  cases turn : driveStep P inner input with
  | again t k =>
    have ranked := driveStep_ranked turn
    have split : drive P inner input = (drive P t (input.drop k)).shift k := law.run_again turn
    rw [split] at ran
    cases later : drive P t (input.drop k) with
    | done u l =>
      rw [later, Run.shift, Run.done.injEq] at ran
      rcases ranked.2 with positive | lower <;> omega
    | fail u e => simp [later, Run.shift] at ran
    | panic => simp [later, Run.shift] at ran
  | stop t k =>
    have stopped : drive P inner input = .done t k := law.run_stop turn
    rw [stopped, Run.done.injEq] at ran
    obtain ⟨rfl, rfl⟩ := ran
    rcases driveStep_kinds P inner with waits | ⟨u, ⟨_, ranked⟩, _⟩ | ⟨u, _, _, moves⟩
    · exact absurd halted (waits.stop turn).2.1
    · exact ranked
    · cases (moves input).symm.trans turn
  | fail e => simp [show drive P inner input = _ from law.run_fail turn] at ran
  | panic => simp [show drive P inner input = _ from law.run_panic turn] at ran

/-- A stop that goes on is halted and not the end, and goes on at the start of a token. -/
theorem Inner.found_more {name name' : Option Bytes} {inner next : Inner} {behind rest : Bytes}
    {events : List (NarEvent Bytes)} {fields : List Nat}
    (found : inner.found name behind = .more events fields name' next rest) :
    Halted false inner ∧ inner.state ≠ .eof ∧ driveRank next = 0 ∧
      rest.length ≤ behind.length := by
  have field {aligned : UInt64} : (behind.drop aligned.toNat).length ≤ behind.length := by
    rw [List.length_drop]
    omega
  obtain ⟨state, level⟩ := inner
  cases state with
  | readContents nodeType size aligned =>
    cases nodeType with
    | symlink =>
      simp only [Inner.found, Found.field] at found
      split at found
      · cases found
      · split at found
        · cases found
        · cases found
          exact ⟨rfl, InnerState.noConfusion, rfl, field⟩
    | _ =>
      simp only [Inner.found] at found
      split at found
      · cases found
      · split at found
        · cases found
        · cases found
          refine ⟨rfl, InnerState.noConfusion, rfl, ?_⟩
          rw [List.length_drop]
          omega
  | readEntryName len aligned =>
    simp only [Inner.found, Found.field] at found
    split at found
    · cases found
    · split at found
      · cases found
      · cases found
        exact ⟨rfl, InnerState.noConfusion, rfl, field⟩
  | readDir =>
    cases found
    exact ⟨rfl, InnerState.noConfusion, rfl, Nat.le_refl _⟩
  | finishReadEntry =>
    cases found
    refine ⟨rfl, InnerState.noConfusion, ?_, Nat.le_refl _⟩
    split <;> rfl
  | _ => cases found

/-- What goes on behind a stop is shorter, or of a lower rank. -/
theorem Inner.find_shrinks {name name' : Option Bytes} {inner next : Inner} {input rest : Bytes}
    {events : List (NarEvent Bytes)} {fields : List Nat}
    (found : inner.find name input = .more events fields name' next rest) :
    3 * rest.length + driveRank next < 3 * input.length + driveRank inner := by
  unfold find at found
  split at found
  · rename_i stop n ran
    have used := ((drive_lawful false).run_used _ _ ran).1
    obtain ⟨halted, live, fresh, shorter⟩ := found_more found
    rw [List.length_drop] at shorter
    rcases Nat.eq_zero_or_pos n with rfl | positive
    · rcases drive_idle ran halted with ranked | ended
      · omega
      · have stays : drive false inner input = .done inner 0 := by
          apply (drive_lawful false).run_stop (m := driveMachine false)
          change driveStep false inner input = _
          simp only [driveStep, ended]
        rw [stays, Run.done.injEq] at ran
        exact absurd (ran.1 ▸ ended) live
    · omega
  · cases found
  · cases found

/-- The aligned size of the name or target that a state has to gather. -/
def Inner.awaited (inner : Inner) : List Nat :=
  match inner.state with
  | .readContents .symlink _ aligned | .readEntryName _ aligned => [aligned.toNat]
  | _ => []

/-- The transcript of some bytes behind a state of the automaton. -/
def parse (name : Option Bytes) (inner : Inner) (input : Bytes) : Transcript :=
  if inner.state = .eof then ⟨[], [], .clean input⟩
  else if input = [] then ⟨[], inner.awaited, .cut .markup⟩
  else
    match _found : inner.find name input with
    | .last transcript => transcript
    | .more events fields name next rest => (parse name next rest).after events fields
  termination_by 3 * input.length + driveRank inner
  decreasing_by exact Inner.find_shrinks _found

/-- The transcript from what was found on. -/
def Found.transcript : Found → Transcript
  | .last transcript => transcript
  | .more events fields name next rest => (parse name next rest).after events fields

section Steps

variable {name : Option Bytes} {inner next : Inner} {a : Bytes}

/-- Behind the archive nothing is told. -/
@[simp] theorem parse_eof (name : Option Bytes) (level : Nat) (input : Bytes) :
    parse name ⟨.eof, level⟩ input = ⟨[], [], .clean input⟩ := by
  rw [parse, if_pos rfl]

/-- Without bytes the archive is cut. -/
theorem parse_nil (live : inner.state ≠ .eof) :
    parse name inner [] = ⟨[], inner.awaited, .cut .markup⟩ := by
  rw [parse, if_neg live, if_pos rfl]

/-- A transcript is what is found first and what follows. -/
theorem parse_find (live : inner.state ≠ .eof) (nonempty : a ≠ []) :
    parse name inner a = (inner.find name a).transcript := by
  rw [parse, if_neg live, if_neg nonempty]
  cases inner.find name a <;> rfl

/-- A state that waits gathers nothing. -/
theorem Inner.awaited_waiting (waiting : ¬ Halted false inner) : inner.awaited = [] := by
  obtain ⟨state, level⟩ := inner
  cases state <;> first | rfl | exact absurd (by trivial) waiting

/-- A state that leads to one that waits gathers nothing. -/
theorem Inner.awaited_idle {n : Nat} (ran : drive false inner a = .done next n)
    (waiting : ¬ Halted false next) : inner.awaited = [] := by
  obtain ⟨state, level⟩ := inner
  have halts (stops : driveStep false ⟨state, level⟩ a = .stop ⟨state, level⟩ 0)
      (halted : Halted false ⟨state, level⟩) : False := by
    have stays : drive false ⟨state, level⟩ a = .done ⟨state, level⟩ 0 :=
      (drive_lawful false).run_stop (m := driveMachine false) stops
    rw [stays, Run.done.injEq] at ran
    exact waiting (ran.1 ▸ halted)
  cases state with
  | readContents nodeType len aligned =>
    cases nodeType with
    | symlink => exact (halts rfl rfl).elim
    | _ => rfl
  | readEntryName len aligned => exact (halts rfl rfl).elim
  | _ => rfl

/-- A state that waits has nothing found at it. -/
theorem Inner.found_waiting (waiting : ¬ Halted false inner) (behind : Bytes) :
    inner.found name behind = .last ⟨[], [], .cut .markup⟩ := by
  obtain ⟨state, level⟩ := inner
  cases state <;> first | rfl | exact absurd (by trivial) waiting

/-- Where the automaton waits for more, the transcript goes on from there. -/
theorem parse_resume (live : inner.state ≠ .eof) (nonempty : a ≠ [])
    (ran : drive false inner a = .done next a.length) (waiting : ¬ Halted false next) (b : Bytes) :
    parse name inner (a ++ b) = parse name next b := by
  have law := drive_lawful false
  have live' : next.state ≠ .eof := by
    intro ended
    apply waiting
    simp only [Halted, ended]
  rw [parse_find live (List.append_ne_nil_of_left_ne_nil nonempty b)]
  by_cases none : b = []
  · subst none
    rw [List.append_nil, Inner.find, ran, parse_nil live', Inner.awaited_waiting waiting]
    simp only [Inner.found_waiting waiting, Found.transcript]
  · have joined : (drive false inner (a ++ b)).Alike ((drive false next b).shift a.length) :=
      law.run_append_more _ _ b ran waiting
    rw [parse_find live' none, Inner.find, Inner.find]
    cases later : drive false next b with
    | done u l =>
      rw [later, Run.shift] at joined
      rw [joined.of_done]
      simp only [List.drop_length_add_append]
    | fail u e =>
      rw [later, Run.shift] at joined
      obtain ⟨other, failed⟩ := joined.of_fail
      rw [failed]
    | panic =>
      rw [later, Run.shift] at joined
      rw [joined.of_panic]

/-- Where the automaton halts, the transcript goes on from what stands there. -/
theorem parse_halted (live : inner.state ≠ .eof) (nonempty : a ≠ []) {n : Nat}
    (ran : drive false inner a = .done next n) (halted : Halted false next) (b : Bytes) :
    parse name inner (a ++ b) = (next.found name (a.drop n ++ b)).transcript := by
  have whole : drive false inner (a ++ b) = .done next n :=
    (drive_lawful false).run_append_halted _ _ b ran halted
  have used := ((drive_lawful false).run_used _ _ ran).1
  rw [parse_find live (List.append_ne_nil_of_left_ne_nil nonempty b), Inner.find, whole]
  simp only [List.drop_append_of_le_length used]

/-- Where the automaton fails, the bytes are no archive. -/
theorem parse_failed (live : inner.state ≠ .eof) (nonempty : a ≠ []) {error : IoError}
    (ran : drive false inner a = .fail next error) (b : Bytes) :
    parse name inner (a ++ b) = ⟨[], [], .invalid error⟩ := by
  have whole : drive false inner (a ++ b) = .fail next error :=
    (drive_lawful false).run_append_fail _ _ b ran
  rw [parse_find live (List.append_ne_nil_of_left_ne_nil nonempty b), Inner.find, whole]
  rfl

/-- Where the automaton panics, so does the transcript. -/
theorem parse_panicked (live : inner.state ≠ .eof) (nonempty : a ≠ [])
    (ran : drive false inner a = .panic) (b : Bytes) :
    parse name inner (a ++ b) = ⟨[], [], .broken⟩ := by
  have whole : drive false inner (a ++ b) = .panic :=
    (drive_lawful false).run_append_panic _ _ b ran
  rw [parse_find live (List.append_ne_nil_of_left_ne_nil nonempty b), Inner.find, whole]
  rfl

/-- Bytes that have to stand in the buffer at once for a state. -/
def Inner.gathered (inner : Inner) : Nat :=
  match inner.state with
  | .readContents .symlink _ aligned | .readEntryName _ aligned => aligned.toNat
  | _ => 0

/-- The transcript from a name or a target that is being gathered. -/
theorem parse_gathering (some' : 0 < inner.gathered) (b : Bytes) :
    parse name inner b = (inner.found name b).transcript := by
  have live : inner.state ≠ .eof := by
    intro ended
    simp [Inner.gathered, ended] at some'
  by_cases none : b = []
  · subst none
    rw [parse_nil live]
    obtain ⟨state, level⟩ := inner
    cases state with
    | readContents nodeType len aligned =>
      cases nodeType with
      | symlink =>
        change 0 < aligned.toNat at some'
        simp only [Inner.found, Found.field, List.length_nil, if_pos some', Found.transcript,
          Inner.awaited]
      | _ => exact absurd some' (Nat.lt_irrefl 0)
    | readEntryName len aligned =>
      change 0 < aligned.toNat at some'
      simp only [Inner.found, Found.field, List.length_nil, if_pos some', Found.transcript,
        Inner.awaited]
    | _ => exact absurd some' (Nat.lt_irrefl 0)
  · have stays : drive false inner b = .done inner 0 := by
      apply (drive_lawful false).run_stop (m := driveMachine false)
      obtain ⟨state, level⟩ := inner
      cases state <;> first | rfl | exact absurd some' (Nat.lt_irrefl 0)
    rw [parse_find live none, Inner.find, stays]
    rfl

/-- The transcript that a parser between two polls still has to tell. -/
def Inner.outlook (name : Option Bytes) (inner : Inner) (behind : Bytes) : Transcript :=
  match inner.wake with
  | some next => parse name next behind
  | none => ⟨[], [], .broken⟩

/-- Nothing more is told, and the bytes stop somewhere. -/
def Transcript.Torn (told : Transcript) (breach : Breach) : Prop :=
  told.events = [] ∧ told.ending = .cut breach

/-- What is found first is not torn in contents without telling their file. -/
theorem Inner.found_torn {breach : Breach} (content : breach ≠ .markup) {behind : Bytes}
    {transcript : Transcript} (found : inner.found name behind = .last transcript) :
    ¬ transcript.Torn breach := by
  have markup {fields : List Nat} : ¬ Transcript.Torn ⟨[], fields, .cut .markup⟩ breach := by
    rintro ⟨_, cut⟩
    cases cut
    exact content rfl
  have whole {events : List (NarEvent Bytes)} {fields : List Nat} {ending : Ending}
      (other : ∀ breach, ending ≠ .cut breach) : ¬ Transcript.Torn ⟨events, fields, ending⟩ breach :=
    fun torn => other _ torn.2
  have field {len aligned : UInt64} {more : Found} (goes : ∀ t, more ≠ .last t)
      (found : Found.field len aligned behind more = .last transcript) :
      ¬ transcript.Torn breach := by
    unfold Found.field at found
    split at found
    · cases found
      exact markup
    · split at found
      · cases found
        exact whole fun _ => Ending.noConfusion
      · exact absurd found (goes transcript)
  obtain ⟨state, level⟩ := inner
  cases state with
  | readContents nodeType size aligned =>
    by_cases link : nodeType = .symlink
    · subst link
      exact field (fun _ => Found.noConfusion) found
    · rw [Inner.found_file link] at found
      split at found
      · cases found
        exact whole fun _ => Ending.noConfusion
      · split at found
        · cases found
          exact fun torn => List.cons_ne_nil _ _ torn.1
        · cases found
  | readEntryName len aligned => exact field (fun _ => Found.noConfusion) found
  | readDir => cases found
  | finishReadEntry => cases found
  | eof =>
    cases found
    exact whole fun _ => Ending.noConfusion
  | _ =>
    cases found
    exact markup

/-- A transcript that is torn in contents tells their file. -/
theorem parse_torn {breach : Breach} (content : breach ≠ .markup) (name : Option Bytes)
    (inner : Inner) (input : Bytes) : ¬ (parse name inner input).Torn breach := by
  induction name, inner, input using parse.induct with
  | case1 name inner input ended =>
    rw [parse, if_pos ended]
    exact fun torn => Ending.noConfusion torn.2
  | case2 name inner live =>
    rw [parse_nil live]
    rintro ⟨_, cut⟩
    cases cut
    exact content rfl
  | case3 name inner input live nonempty transcript found =>
    rw [parse_find live nonempty, found]
    unfold Inner.find at found
    split at found
    · exact Inner.found_torn content found
    · cases found
      exact fun torn => Ending.noConfusion torn.2
    · cases found
      exact fun torn => Ending.noConfusion torn.2
  | case4 name inner input live nonempty events fields name' next rest found ih =>
    rw [parse_find live nonempty, found]
    rintro ⟨none, cut⟩
    exact ih ⟨(List.append_eq_nil_iff.mp none).2, cut⟩

/-- What is still to be told is not torn in contents without telling their file. -/
theorem Inner.outlook_torn {breach : Breach} (content : breach ≠ .markup) (name : Option Bytes)
    (inner : Inner) (behind : Bytes) : ¬ (inner.outlook name behind).Torn breach := by
  rw [Inner.outlook]
  split
  · exact parse_torn content _ _ _
  · exact fun torn => Ending.noConfusion torn.2

end Steps

end Harmonia.Nar
