import Mathlib.Data.List.Basic
import Mathlib.Algebra.Order.Ring.Nat
import Harmonia.Nar.Session
import Harmonia.Nar.Story

/-!
# Reading an archive through the parser

A consumer asks for the events of an archive one after the other. Of each file it takes some
bites, and then either reads on to the end or leaves the rest. Pending polls are repeated.
What it gets is the transcript of the archive, whatever it leaves (`Collects`).
-/

namespace Harmonia.Nar

open Library

/-- How a consumer reads a file. -/
structure Appetite where
  /-- At most so many bytes are taken each time. -/
  bites : List Nat
  /-- Whether the rest is read to its end. -/
  finish : Bool
  deriving DecidableEq, Repr

/-- A consumer that says nothing reads the whole file. -/
instance : Inhabited Appetite := ⟨⟨[], true⟩⟩

/-- What a consumer got of a file. -/
structure Served where
  /-- The bytes. -/
  bytes : Bytes
  /-- Whether the file reader signalled its end. -/
  ended : Bool
  deriving DecidableEq, Repr

/-- How reading the events of an archive comes out. -/
inductive Outcome (R : Type) where
  /-- The parser came to its end. -/
  | ended (log : List (NarEvent Served)) (session : Session R)
  /-- The parser failed, or the reader of the file behind those in the log. -/
  | failed (log : List (NarEvent Served)) (inFile : Bool) (error : IoError)
  /-- A poll panicked. -/
  | panicked
  deriving DecidableEq, Repr

section Definitions

variable {R : Type} [AsyncBytesRead R]

/-- Read a file by bites, and then to its end or not at all. -/
def readFile (patience : Nat) (finish : Bool) :
    Nat → List Nat → Session R → Bytes → Poll Served × Session R
  | 0, _, this, _ => (.panic, this)
  | fuel + 1, bites, this, got =>
    if bites = [] ∧ finish = false then (.ready ⟨got, false⟩, this)
    else
      match await Session.fill patience this with
      | (.ready buf, this) =>
        if buf = [] then (.ready ⟨got, true⟩, this)
        else
          let amt := min (bites.headD buf.length) buf.length
          match this.take amt with
          | some this => readFile patience finish fuel bites.tail this (got ++ buf.take amt)
          | none => (.panic, this)
      | (.pending, this) => (.pending, this)
      | (.error error, this) => (.error error, this)
      | (.panic, this) => (.panic, this)

/-- Read the events of an archive, and of each file what the consumer wants. -/
def collect (patience : Nat) :
    Nat → List Appetite → Session R → List (NarEvent Served) → Outcome R
  | 0, _, _, _ => .panicked
  | fuel + 1, appetites, this, log =>
    match await Session.next patience this with
    | (.ready none, this) => .ended log this
    | (.ready (some (.file name executable size _)), this) =>
      let appetite := appetites.headD default
      match readFile patience appetite.finish (patience + 9 + appetite.bites.length)
          appetite.bites this [] with
      | (.ready served, this) =>
        collect patience fuel appetites.tail this.dropFile
          (log ++ [.file name executable size served])
      | (.error error, _) => .failed log true error
      | _ => .panicked
    | (.ready (some (.symlink name target)), this) =>
      collect patience fuel appetites this (log ++ [.symlink name target])
    | (.ready (some (.startDirectory name)), this) =>
      collect patience fuel appetites this (log ++ [.startDirectory name])
    | (.ready (some .endDirectory), this) =>
      collect patience fuel appetites this (log ++ [.endDirectory])
    | (.error error, _) => .failed log false error
    | _ => .panicked

/-- Read the archive of a reader. -/
def readEvents (appetites : List Appetite) (reader : R) : Outcome R :=
  collect (budget reader + 1) (3 * budget reader + 4) appetites (Session.new reader) []

end Definitions

variable {R : Type} [AsyncBytesRead R] [LawfulBytesRead R] {trust : Trust}

/-! ## Waiting -/

/-- Repeating a pending poll of the parser ends, with what is told next. -/
theorem next_told (patience : Nat) {told : Transcript} {cap : Nat} {this : Session R}
    (stands : Stands trust told cap this.parser) (released : this.Released)
    (enough : cap < patience) :
    Told trust told cap (await Session.next patience this) ∧ (await Session.next patience this).1 ≠ .pending := by
  induction patience generalizing told cap this with
  | zero => exact absurd enough (Nat.not_lt_zero _)
  | succ patience ih =>
    have said := stands.told released
    rw [await]
    generalize this.next = result at said
    cases said with
    | ended past holds follows => exact ⟨.ended past holds follows, by simp⟩
    | event split stands released => exact ⟨.event split stands released, by simp⟩
    | file split fresh short reading => exact ⟨.file split fresh short reading, by simp⟩
    | @pending session later fields less split stands released fewer =>
      obtain ⟨said, ready⟩ := ih stands released (by omega)
      rw [split]
      exact ⟨said.after (by omega) fields, ready⟩
    | error fails => exact ⟨.error fails, by simp⟩
    | broken none past => exact ⟨.broken none past, by simp⟩

/-- Repeating a pending poll of the file reader ends, with what it shows next. -/
theorem fill_filled (patience : Nat) {told : Transcript} {cap : Nat} {bytes : Bytes}
    {this : Session R} (reading : Reading trust told cap bytes this) (enough : cap < patience) :
    Filled trust told cap bytes (await Session.fill patience this) ∧
      (await Session.fill patience this).1 ≠ .pending := by
  induction patience generalizing cap this with
  | zero => exact absurd enough (Nat.not_lt_zero _)
  | succ patience ih =>
    have filled := reading.filled
    rw [await]
    generalize this.fill = result at filled
    cases filled with
    | shown nonempty starts holds reading =>
      exact ⟨.shown nonempty starts holds reading, by simp⟩
    | ended none full stands released => exact ⟨.ended none full stands released, by simp⟩
    | @pending session less reading fewer =>
      obtain ⟨filled, ready⟩ := ih reading (by omega)
      exact ⟨filled.weaken (by omega), ready⟩
    | error fails words reading => exact ⟨.error fails words reading, by simp⟩
    | broken past => exact ⟨.broken past, by simp⟩

/-! ## Reading a file -/

/-- What reading a file comes to, with `got` read before. -/
inductive Serves (trust : Trust) (told : Transcript) (cap : Nat) (finish : Bool)
    (got bytes : Bytes) : Poll Served × Session R → Prop
  | ready {session : Session R} {taken : Bytes} {ended : Bool} (starts : taken <+: bytes)
    (whole : ended = true → taken = bytes) (finishes : finish = true → ended = true)
    (full : ended = true → ¬ told.Torn .trailer)
    (stands : Stands trust told cap session.dropFile.parser)
    (released : session.dropFile.Released) :
    Serves trust told cap finish got bytes (.ready ⟨got ++ taken, ended⟩, session)
  | error {session : Session R} {error : IoError} (fails : Fails R trust told error)
    (words : trust.good → ¬ told.Torn .words) :
    Serves trust told cap finish got bytes (.error error, session)
  | broken {session : Session R} (past : told = ⟨[], [], .broken⟩) :
    Serves trust told cap finish got bytes (.panic, session)

/-- What was taken before the rest of a file belongs to it. -/
theorem Serves.before {told : Transcript} {cap : Nat} {finish : Bool} {got bytes front : Bytes}
    {result : Poll Served × Session R}
    (serves : Serves trust told cap finish (got ++ front) bytes result) :
    Serves trust told cap finish got (front ++ bytes) result := by
  cases serves with
  | ready starts whole finishes full stands released =>
    rw [List.append_assoc]
    refine .ready ((List.prefix_append_right_inj front).mpr starts) ?_ finishes full stands released
    intro ended
    rw [whole ended]
  | error fails words => exact .error fails words
  | broken past => exact .broken past

/-- Reading a file by any bites gives its contents. -/
theorem readFile_serves {patience : Nat} {finish : Bool} (fuel : Nat) {told : Transcript}
    {cap : Nat} {bytes got : Bytes} {bites : List Nat} {this : Session R}
    (reading : Reading trust told cap bytes this) (patient : cap < patience)
    (enough : bites.length + bytes.length < fuel) :
    Serves trust told cap finish got bytes (readFile patience finish fuel bites this got) := by
  induction fuel generalizing bytes got bites this with
  | zero => exact absurd enough (Nat.not_lt_zero _)
  | succ fuel ih =>
    rw [readFile]
    by_cases leaves : bites = [] ∧ finish = false
    · rw [if_pos leaves]
      obtain ⟨stands, released⟩ := reading.dropped
      have served : Serves trust told cap finish got bytes (.ready ⟨got ++ [], false⟩, this) :=
        .ready List.nil_prefix Bool.noConfusion (fun all => absurd all (by simp [leaves.2]))
          Bool.noConfusion stands released
      rwa [List.append_nil] at served
    · rw [if_neg leaves]
      obtain ⟨filled, ready⟩ := fill_filled patience reading patient
      generalize await Session.fill patience this = result at filled ready
      cases filled with
      | @shown session padded buf nonempty starts holds reading =>
        have within : min (bites.headD buf.length) buf.length ≤ buf.length := Nat.min_le_right _ _
        simp only [if_neg nonempty]
        obtain ⟨next, took, reading⟩ := reading.taken holds (.inr nonempty) within
        obtain ⟨rest, rfl⟩ := starts
        have positive := List.length_pos_of_ne_nil nonempty
        have less : bites.tail.length +
            ((buf ++ rest).drop (min (bites.headD buf.length) buf.length)).length < fuel := by
          rw [List.length_append] at enough
          rw [List.length_drop, List.length_append]
          cases bites with
          | nil =>
            simp only [List.tail_nil, List.length_nil, List.headD_nil] at enough ⊢
            omega
          | cons bite bites =>
            simp only [List.tail_cons, List.length_cons, List.headD_cons] at enough ⊢
            omega
        simp only [took]
        have later := (@ih _ (got ++ buf.take (min (bites.headD buf.length) buf.length)) _ _
          reading less).before
        rwa [List.drop_append_of_le_length within, ← List.append_assoc,
          List.take_append_drop] at later
      | @ended session none full stands released =>
        obtain ⟨same, released⟩ := released.dropped
        simp only [↓reduceIte]
        have served : Serves trust told cap finish got bytes (.ready ⟨got ++ [], true⟩, session) :=
          .ready List.nil_prefix (fun _ => none.symm) (fun _ => rfl) (fun _ => full)
            (same ▸ stands) released
        rwa [List.append_nil] at served
      | pending reading fewer => exact absurd rfl ready
      | error fails words reading => exact .error fails words
      | broken past => exact .broken past

/-! ## Reading an archive -/

/-- What a consumer with some appetites is told of a transcript, and what is left to tell. -/
inductive Recounts :
    List Appetite → Transcript → List (NarEvent Served) → Transcript → Prop
  | nil (appetites : List Appetite) (told : Transcript) : Recounts appetites told [] told
  | event {appetites : List Appetite} {told left : Transcript} {log : List (NarEvent Served)}
    (event : NarEvent Empty) (fields : List Nat) (later : Recounts appetites told log left) :
    Recounts appetites (told.after [event.map Empty.elim] fields) (event.map Empty.elim :: log) left
  | file {appetites : List Appetite} {told left : Transcript} {log : List (NarEvent Served)}
    (name : Bytes) (executable : Bool) (size : UInt64) (fields : List Nat) {bytes : Bytes}
    {served : Served} (starts : served.bytes <+: bytes)
    (whole : served.ended = true → served.bytes = bytes)
    (finishes : (appetites.headD default).finish = true → served.ended = true)
    (full : served.ended = true → ¬ told.Torn .trailer)
    (later : Recounts appetites.tail told log left) :
    Recounts appetites (told.after [.file name executable size bytes] fields)
      (.file name executable size served :: log) left

/-- What a consumer with some appetites gets of some events: each file with a beginning of its
contents, with all of them when the file reader signals its end, and that it signals it when the
consumer reads on. -/
inductive Delivers : List Appetite → List (NarEvent Bytes) → List (NarEvent Served) → Prop
  | nil (appetites : List Appetite) : Delivers appetites [] []
  | event {appetites : List Appetite} {events : List (NarEvent Bytes)}
    {log : List (NarEvent Served)} (event : NarEvent Empty)
    (later : Delivers appetites events log) :
    Delivers appetites (event.map Empty.elim :: events) (event.map Empty.elim :: log)
  | file {appetites : List Appetite} {events : List (NarEvent Bytes)}
    {log : List (NarEvent Served)} (name : Bytes) (executable : Bool) (size : UInt64)
    {bytes : Bytes} {served : Served} (starts : served.bytes <+: bytes)
    (whole : served.ended = true → served.bytes = bytes)
    (finishes : (appetites.headD default).finish = true → served.ended = true)
    (later : Delivers appetites.tail events log) :
    Delivers appetites (.file name executable size bytes :: events)
      (.file name executable size served :: log)

/-- What has been told and what is left make up the transcript. -/
theorem Recounts.split {appetites : List Appetite} {told left : Transcript}
    {log : List (NarEvent Served)} (recounts : Recounts appetites told log left) :
    ∃ events fields, told = left.after events fields ∧ Delivers appetites events log := by
  induction recounts with
  | nil appetites told => exact ⟨[], [], rfl, .nil appetites⟩
  | event event fields later ih =>
    obtain ⟨events, fields', rfl, delivers⟩ := ih
    exact ⟨_, _, Transcript.after_after _ _ _ _ _, .event event delivers⟩
  | file name executable size fields starts whole finishes full later ih =>
    obtain ⟨events, fields', rfl, delivers⟩ := ih
    exact ⟨_, _, Transcript.after_after _ _ _ _ _,
      .file name executable size starts whole finishes delivers⟩

/-- With a clean ending, only the buffer can fail. -/
theorem Fails.of_clean {told : Transcript} {rest : Bytes} {error : IoError}
    (fails : Fails R trust told error) (clean : told.ending = .clean rest) (good : trust.good) :
    (view (R := R)).Refuses error ∧
      (trust.limit < trust.bound + 8 ∨ ∃ size ∈ told.fields, trust.limit < size) := by
  cases fails with
  | cut none past kind => exact absurd (clean.symm.trans past) Ending.noConfusion
  | invalid past => exact absurd (clean.symm.trans past) Ending.noConfusion
  | refused refuses large =>
    refine ⟨refuses, ?_⟩
    rcases large good with small | field | broken
    · exact .inl small
    · exact .inr field
    · exact absurd (clean.symm.trans broken) Ending.noConfusion
  | irregular bad => exact absurd good bad

/-- How reading an archive comes out, with `log` told before. -/
inductive Collects (trust : Trust) (told : Transcript) (appetites : List Appetite)
    (log : List (NarEvent Served)) : Outcome R → Prop
  | ended {session : Session R} {reader : R} {more : List (NarEvent Served)} {fields : List Nat}
    (recounts : Recounts appetites told more ⟨[], fields, .clean (view.unread reader)⟩)
    (holds : session.parser.reader = .available reader) :
    Collects trust told appetites log (.ended (log ++ more) session)
  | failed {more : List (NarEvent Served)} {error : IoError} {left : Transcript}
    (recounts : Recounts appetites told more left) (fails : Fails R trust left error) :
    Collects trust told appetites log (.failed (log ++ more) false error)
  | file {more : List (NarEvent Served)} {error : IoError} {left : Transcript} {name : Bytes}
    {executable : Bool} {size : UInt64} {bytes : Bytes} {fields : List Nat}
    (recounts : Recounts appetites told more
      (left.after [.file name executable size bytes] fields))
    (fails : Fails R trust left error) (words : trust.good → ¬ left.Torn .words) :
    Collects trust told appetites log (.failed (log ++ more) true error)
  | panicked (past : told.ending = .broken) : Collects trust told appetites log .panicked

/-- What comes after an event belongs to the whole archive. -/
theorem Collects.event {later : Transcript} {appetites appetites' : List Appetite}
    {log : List (NarEvent Served)} {outcome : Outcome R} {event : NarEvent Bytes}
    {entry : NarEvent Served} {fields : List Nat}
    (recounts : ∀ {more left}, Recounts appetites' later more left →
      Recounts appetites (later.after [event] fields) (entry :: more) left)
    (collects : Collects trust later appetites' (log ++ [entry]) outcome) :
    Collects trust (later.after [event] fields) appetites log outcome := by
  cases collects with
  | ended recounts' holds =>
    rw [List.append_assoc]
    exact .ended (recounts recounts') holds
  | failed recounts' fails =>
    rw [List.append_assoc]
    exact .failed (recounts recounts') fails
  | file recounts' fails words =>
    rw [List.append_assoc]
    exact .file (recounts recounts') fails words
  | panicked past => exact .panicked past

/-- An archive with a clean ending is read to it, unless the buffer cannot hold enough. -/
theorem Collects.of_clean {told : Transcript} {appetites : List Appetite} {rest : Bytes}
    {log : List (NarEvent Served)} {outcome : Outcome R}
    (collects : Collects trust told appetites log outcome) (clean : told.ending = .clean rest)
    (good : trust.good) :
    (∃ more session reader, outcome = .ended (log ++ more) session ∧
        Delivers appetites told.events more ∧ session.parser.reader = .available reader ∧
        view.unread reader = rest) ∨
      ∃ more inFile error, outcome = .failed (log ++ more) inFile error ∧
        (view (R := R)).Refuses error ∧
        (trust.limit < trust.bound + 8 ∨ ∃ size ∈ told.fields, trust.limit < size) := by
  -- What is left when a poll fails ends cleanly too, and its fields are fields of the archive.
  have refused {more : List (NarEvent Served)} {left : Transcript} {error : IoError}
      (recounts : Recounts appetites told more left)
      (fails : ∀ {rest}, left.ending = .clean rest → (view (R := R)).Refuses error ∧
        (trust.limit < trust.bound + 8 ∨ ∃ size ∈ left.fields, trust.limit < size)) :
      (view (R := R)).Refuses error ∧
        (trust.limit < trust.bound + 8 ∨ ∃ size ∈ told.fields, trust.limit < size) := by
    obtain ⟨events, fields, rfl, _⟩ := recounts.split
    obtain ⟨refuses, large⟩ := fails clean
    refine ⟨refuses, large.imp_right ?_⟩
    rintro ⟨size, listed, small⟩
    exact ⟨size, List.mem_append_right _ listed, small⟩
  cases collects with
  | @ended session reader more fields recounts holds =>
    obtain ⟨events, fields', rfl, delivers⟩ := recounts.split
    refine .inl ⟨more, session, reader, rfl, ?_, holds, Ending.clean.inj clean⟩
    simpa only [Transcript.after, List.append_nil] using delivers
  | failed recounts fails =>
    exact .inr ⟨_, _, _, rfl, refused recounts fun clean => fails.of_clean clean good⟩
  | file recounts fails words =>
    refine .inr ⟨_, _, _, rfl, refused recounts fun clean => ?_⟩
    obtain ⟨refuses, large⟩ := fails.of_clean clean good
    refine ⟨refuses, large.imp_right ?_⟩
    rintro ⟨size, listed, small⟩
    exact ⟨size, List.mem_append_right _ listed, small⟩
  | panicked past => exact absurd (clean.symm.trans past) Ending.noConfusion

/-- Reading an archive gives its transcript, or fails for one of the reasons there are. -/
theorem collect_collects {patience : Nat} (fuel : Nat) {told : Transcript} {cap : Nat}
    {appetites : List Appetite} {log : List (NarEvent Served)} {this : Session R}
    (stands : Stands trust told cap this.parser) (released : this.Released)
    (patient : cap < patience) (enough : told.events.length < fuel) :
    Collects trust told appetites log (collect patience fuel appetites this log) := by
  induction fuel generalizing told appetites log this with
  | zero => exact absurd enough (Nat.not_lt_zero _)
  | succ fuel ih =>
    obtain ⟨said, ready⟩ := next_told patience stands released patient
    rw [collect]
    generalize await Session.next patience this = result at said ready
    cases said with
    | @ended session reader fields past holds follows =>
      subst past
      have ended : Collects trust ⟨[], fields, .clean (view.unread reader)⟩ appetites log
          (.ended (log ++ []) session) := .ended (.nil appetites _) holds
      rwa [List.append_nil] at ended
    | @event session event later fields split stands' released' =>
      subst split
      have fewer : later.events.length < fuel := Nat.lt_of_succ_lt_succ enough
      have further {entry : NarEvent Served} (same : entry = event.map Empty.elim) :
          Collects trust (later.after [event.map Empty.elim] fields) appetites log
            (collect patience fuel appetites session (log ++ [entry])) := by
        subst same
        exact .event (Recounts.event event fields) (ih stands' released' fewer)
      cases event with
      | file _ _ _ none => exact none.elim
      | symlink name target => exact further rfl
      | startDirectory name => exact further rfl
      | endDirectory => exact further rfl
    | @file session name executable size bytes later fields split fresh short reading =>
      subst split
      have fewer : later.events.length < fuel := Nat.lt_of_succ_lt_succ enough
      have serves := @readFile_serves R _ _ trust patience (appetites.headD default).finish
        (patience + 9 + (appetites.headD default).bites.length) later cap bytes []
        (appetites.headD default).bites session reading patient (by omega)
      simp only
      generalize readFile patience (appetites.headD default).finish
        (patience + 9 + (appetites.headD default).bites.length)
        (appetites.headD default).bites session [] = result at serves
      cases serves with
      | ready starts whole finishes full stands released =>
        exact .event (Recounts.file name executable size fields starts whole finishes full)
          (ih stands released fewer)
      | @error _ error fails words =>
        have failed : Collects trust (later.after [.file name executable size bytes] fields)
            appetites log (Outcome.failed (R := R) (log ++ []) true error) :=
          .file (.nil appetites _) fails words
        rwa [List.append_nil] at failed
      | broken past =>
        subst past
        exact .panicked rfl
    | pending split stands released fewer => exact absurd rfl ready
    | @error _ error fails =>
      have failed : Collects trust told appetites log
          (Outcome.failed (R := R) (log ++ []) false error) := .failed (.nil appetites told) fails
      rwa [List.append_nil] at failed
    | broken none past => exact .panicked past

/-- The events of what was found. -/
def Found.events : Found → List (NarEvent Bytes)
  | .last transcript => transcript.events
  | .more events _ _ _ _ => events

/-- At most one event is found at a time. -/
theorem Inner.found_events (name : Option Bytes) (inner : Inner) (behind : Bytes) :
    (inner.found name behind).events.length ≤ 1 := by
  obtain ⟨state, level⟩ := inner
  have field {len aligned : UInt64} {more : Found} (few : more.events.length ≤ 1) :
      (Found.field len aligned behind more).events.length ≤ 1 := by
    unfold Found.field
    split
    · exact Nat.zero_le _
    · split
      · exact Nat.zero_le _
      · exact few
  cases state with
  | readContents nodeType size aligned =>
    by_cases link : nodeType = .symlink
    · subst link
      exact field (Nat.le_refl 1)
    · rw [Inner.found_file link]
      split
      · exact Nat.le_refl 1
      · split <;> exact Nat.le_refl 1
  | readEntryName len aligned => exact field (Nat.zero_le _)
  | readDir => exact Nat.le_refl 1
  | finishReadEntry => exact Nat.le_refl 1
  | _ => exact Nat.zero_le _

/-- At most one event is found over any bytes. -/
theorem Inner.find_events (name : Option Bytes) (inner : Inner) (input : Bytes) :
    (inner.find name input).events.length ≤ 1 := by
  unfold Inner.find
  split
  · exact Inner.found_events _ _ _
  · exact Nat.zero_le _
  · exact Nat.zero_le _

/-- A transcript has no more events than its bytes leave room for. -/
theorem parse_events_length (name : Option Bytes) (inner : Inner) (input : Bytes) :
    (parse name inner input).events.length ≤ 3 * input.length + driveRank inner + 1 := by
  induction name, inner, input using parse.induct with
  | case1 name inner input ended =>
    rw [parse, if_pos ended]
    exact Nat.zero_le _
  | case2 name inner live =>
    rw [parse_nil live]
    exact Nat.zero_le _
  | case3 name inner input live nonempty transcript found =>
    have one := Inner.find_events name inner input
    rw [found] at one
    rw [parse_find live nonempty, found]
    exact Nat.le_trans one (Nat.le_add_left _ _)
  | case4 name inner input live nonempty events fields name' next rest found ih =>
    have one := Inner.find_events name inner input
    have shrinks := Inner.find_shrinks found
    rw [found] at one
    change events.length ≤ 1 at one
    rw [parse_find live nonempty, found, Found.transcript, Transcript.after, List.length_append]
    omega

/-- Reading an archive through the parser gives the transcript of its bytes. -/
theorem readEvents_collects (appetites : List Appetite) {reader : R} (valid : view.Valid reader)
    (knows : trust.Knows reader)
    (small : trust.good → (view.visible reader).length ≤ trust.bound) :
    Collects trust (parse none .start (view.unread reader)) appetites []
      (readEvents appetites reader) := by
  obtain ⟨stands, released⟩ := Session.start valid knows small
  have covers : (view.unread reader).length ≤ budget reader := covered
  have few := parse_events_length none .start (view.unread reader)
  have fresh : driveRank .start = 0 := rfl
  exact collect_collects _ stands released (Nat.lt_succ_self _) (by omega)

end Harmonia.Nar
