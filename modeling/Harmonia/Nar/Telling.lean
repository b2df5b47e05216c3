import Mathlib.Data.List.Basic
import Mathlib.Algebra.Order.Ring.Nat
import Harmonia.Nar.Transcript

/-!
# The parser tells the transcript

Whatever the reads are, a parser tells the transcript of its archive: each event in turn and
then the ending. A parser that can be polled has its reader, or has to drain contents first
(`Stands`), and a poll tells the next event of what is left (`Advances`). It fails only when
the transcript itself ends early, when the source fails, or when the buffer may not grow
(`Fails`).
-/

namespace Harmonia.Nar

open Library

variable {R : Type} [AsyncBytesRead R] [LawfulBytesRead R]

/-! ## Names and targets -/

/-- What fetching a field of `len` bytes out of `aligned` does. -/
inductive Fetches (len aligned : Nat) (reader : R) : Poll Bytes × R → Prop
  | ready {next : R} (valid : view.Valid next)
    (regular : view.Regular reader → view.Regular next)
    (enough : aligned ≤ (view.unread reader).length) (fits : len ≤ aligned)
    (unread : view.unread next = (view.unread reader).drop aligned)
    (bounded : (view.visible next).length ≤
      max (view.visible reader).length (aligned + view.chunk reader) - aligned)
    (chunk : view.chunk next ≤ view.chunk reader) (limit : view.limit next = view.limit reader)
    (spent : budget next ≤ budget reader) :
    Fetches len aligned reader (.ready ((view.unread reader).take len), next)
  | pending {next : R} (kept : view.Kept reader next)
    (regular : view.Regular reader → view.Regular next)
    (bounded : (view.visible next).length ≤
      max (view.visible reader).length (aligned + view.chunk reader))
    (positive : 0 < aligned) (less : budget next < budget reader) :
    Fetches len aligned reader (.pending, next)
  | ended {next : R} {error : IoError} (short : (view.unread reader).length < aligned)
    (kind : error.kind = .unexpectedEof) : Fetches len aligned reader (.error error, next)
  | refused {next : R} {error : IoError} (refuses : (view (R := R)).Refuses error)
    (large : view.Regular reader → view.limit reader < aligned) :
    Fetches len aligned reader (.error error, next)
  | error {next : R} {error : IoError} (irregular : ¬ view.Regular reader) :
    Fetches len aligned reader (.error error, next)
  | broken {next : R} (enough : aligned ≤ (view.unread reader).length) (wraps : aligned < len) :
    Fetches len aligned reader (.panic, next)

/-- `takeField` fetches a field from what is visible. -/
theorem takeField_fetches (len aligned : Nat) {reader : R} (valid : view.Valid reader) :
    Fetches len aligned reader (takeField reader (view.visible reader) len aligned) := by
  have gathered := forceUntil_gathers aligned aligned valid (Nat.le_add_left _ _)
  unfold takeField
  by_cases zero : aligned = 0 ∧ ∃ next, forceUntil aligned aligned reader (view.visible reader) =
      (.pending, next)
  · obtain ⟨rfl, next, impossible⟩ := zero
    rw [forceUntil, if_pos (Nat.zero_le _)] at impossible
    cases impossible
  · generalize forceUntil aligned aligned reader (view.visible reader) = result at gathered zero
    cases gathered with
    | @ready next kept regular enough grown bounded =>
      have within : (view.visible next).length ≤ (view.unread reader).length := by
        rw [← kept.unread, View.unread, List.length_append]
        omega
      by_cases wraps : aligned < len
      · simp only [if_pos (Or.inr wraps : _ ∨ aligned < len)]
        exact .broken (Nat.le_trans enough within) wraps
      · have inside : ¬ ((view.visible next).length < len ∨ aligned < len) := by omega
        obtain ⟨after, took, valid', regular', shown, unread, chunk, limit, spent⟩ :=
          consumes_unread kept.valid enough
        have bytes : (view.visible next).take len = (view.unread reader).take len := by
          rw [← kept.unread, View.unread, List.take_append_of_le_length (by omega)]
        simp only [if_neg inside, took, bytes]
        refine .ready valid' (regular' ∘ regular) (Nat.le_trans enough within) (by omega)
          (by rw [unread, kept.unread]) ?_ (Nat.le_trans chunk kept.chunk)
          (limit.trans kept.limit) ?_
        · rw [shown, List.length_drop]
          omega
        · have less := kept.budget
          omega
    | @pending next kept regular grown bounded less =>
      refine .pending kept regular bounded ?_ less
      exact Nat.pos_of_ne_zero fun none => zero ⟨none, next, rfl⟩
    | ended kept regular short kind => exact .ended short kind
    | refused kept refuses large => exact .refused refuses large
    | error kept irregular => exact .error irregular

/-! ## What is known of the reader -/

/-- What may be relied on about the archive's reader. -/
structure Trust where
  /-- The source does not fail and the buffer is within its limit. -/
  good : Prop
  /-- A bound on what one read adds. -/
  bound : Nat
  /-- A buffer up to this size can still grow. -/
  limit : Nat

/-- Nothing is relied on. -/
def Trust.never : Trust := ⟨False, 0, 0⟩

/-- The reader deserves the trust. -/
def Trust.Knows (trust : Trust) (reader : R) : Prop :=
  trust.good → view.Regular reader ∧ view.chunk reader ≤ trust.bound ∧
    view.limit reader = trust.limit

/-- Trust is passed on. -/
theorem Trust.Knows.next {trust : Trust} {reader next : R} (knows : trust.Knows reader)
    (regular : view.Regular reader → view.Regular next)
    (chunk : view.chunk next ≤ view.chunk reader) (limit : view.limit next = view.limit reader) :
    trust.Knows next := by
  intro good
  obtain ⟨ok, small, same⟩ := knows good
  exact ⟨regular ok, Nat.le_trans chunk small, limit.trans same⟩

variable (trust : Trust)

/-- Why a transcript is not told to its end. -/
inductive Fails (R : Type) [AsyncBytesRead R] [LawfulBytesRead R] (trust : Trust)
    (told : Transcript) (error : IoError) : Prop
  /-- The archive is cut, and all that there is has been told. -/
  | cut (none : told.events = []) {breach : Breach} (past : told.ending = .cut breach)
    (kind : error.kind = .unexpectedEof)
  /-- The archive is invalid. -/
  | invalid (past : told.ending = .invalid error)
  /-- The buffer may not grow as it would have to. -/
  | refused (refuses : (view (R := R)).Refuses error)
    (large : trust.good → trust.limit < trust.bound + 8 ∨
      (∃ size ∈ told.fields, trust.limit < size) ∨ told.ending = .broken)
  /-- The source failed. -/
  | irregular (bad : ¬ trust.good)

/-- A parser that has its reader, and the transcript it still has to tell. -/
structure Idle (told : Transcript) (cap : Nat) (parser : NarParser R) (reader : R) : Prop where
  /-- The reader is there. -/
  holds : parser.reader = .available reader
  /-- The reader is sound. -/
  valid : view.Valid reader
  /-- The reader is trusted. -/
  knows : trust.Knows reader
  /-- The buffer holds what is being gathered and one read more. -/
  tame : trust.good → (view.visible reader).length ≤ parser.state.gathered + trust.bound
  /-- The transcript. -/
  tells : parser.state.outlook parser.name (view.unread reader) = told
  /-- A bound on the budget. -/
  spent : budget reader ≤ cap

/-- Where the contents break off, if they do. -/
def PaddedReader.breach (padded : PaddedReader R) : Breach :=
  if padded.Lacks then .words else .trailer

/-- What keeps the whole words in their place keeps where the contents break off. -/
theorem PaddedReader.breach_eq {padded next : PaddedReader R}
    (lacks : next.Lacks ↔ padded.Lacks) : next.breach = padded.breach := by
  simp only [PaddedReader.breach, lacks]

/-- Fresh contents break off where the transcript says. -/
theorem PaddedReader.new_breach {reader : R} {size : UInt64} (valid : view.Valid reader)
    (fits : Fits size) :
    (PaddedReader.new reader size).breach = breachAt size (view.unread reader) := by
  simp only [PaddedReader.breach, breachAt, PaddedReader.new_lacks valid fits]

/-- A reader of contents, and the transcript behind them. -/
inductive Remains (told : Transcript) (cap : Nat) (name : Option Bytes) (state : Inner)
    (bytes : Bytes) (padded : PaddedReader R) : Prop
  /-- The contents are too long for the code's arithmetic. -/
  | broken (past : told = ⟨[], [], .broken⟩) (stuck : padded.remainingUsize = none)
  /-- The contents, as far as the archive has them. -/
  | sound (sound : padded.Sound) (remaining : padded.remaining = bytes)
    (mark : state.wake = some ⟨.finishNode 0, state.level⟩)
    (whole : padded.Complete → state.outlook name padded.left = told)
    (cut : ¬ padded.Complete → told = ⟨[], [], .cut padded.breach⟩) (knows : trust.Knows padded.reader)
    (tame : trust.good → padded.Tame trust.bound) (spent : budget padded.reader ≤ cap)

/-- A parser that can be polled: it has its reader, or has to drain contents first. -/
inductive Stands (told : Transcript) (cap : Nat) (parser : NarParser R) : Prop
  /-- It has its reader. -/
  | idle {reader : R} (idle : Idle trust told cap parser reader)
  /-- It has its reader, and the archive has ended in the contents of a file. -/
  | exhausted {reader : R} {breach : Breach} (past : told = ⟨[], [], .cut breach⟩)
    (holds : parser.reader = .available reader) (valid : view.Valid reader)
    (knows : trust.Knows reader) (gone : view.unread reader = [])
    (live : ∃ next, parser.state.wake = some next ∧ next.wake = some next ∧ next.state ≠ .eof)
    (spent : budget reader ≤ cap)
  /-- Contents have come back. -/
  | returned {padded : PaddedReader R} {bytes : Bytes}
    (holds : parser.reader = .lent (some padded) ∨ parser.reader = .drain padded)
    (remains : Remains trust told cap parser.name parser.state bytes padded)

/-- What a poll of the parser does about a transcript. -/
inductive Advances (told : Transcript) (cap : Nat) :
    Poll (Option (NarEvent (PaddedReader R))) × NarParser R → Prop
  | ended {parser : NarParser R} {reader : R} {fields : List Nat}
    (past : told = ⟨[], fields, .clean (view.unread reader)⟩)
    (idle : Idle trust ⟨[], [], .clean (view.unread reader)⟩ cap parser reader) :
    Advances told cap (.ready none, parser)
  | event {parser : NarParser R} {reader : R} {event : NarEvent Empty} {later : Transcript}
    {fields : List Nat} (split : told = later.after [event.map Empty.elim] fields)
    (idle : Idle trust later cap parser reader) :
    Advances told cap (.ready (some (event.map Empty.elim)), parser)
  | file {parser : NarParser R} {name : Bytes} {executable : Bool} {size : UInt64}
    {padded : PaddedReader R} {bytes : Bytes} {later : Transcript} {fields : List Nat}
    (split : told = later.after [.file name executable size bytes] fields)
    (lent : parser.reader = .lent none)
    (fresh : ∃ reader, padded = PaddedReader.new reader size) (short : bytes.length ≤ cap)
    (remains : Remains trust later cap parser.name parser.state bytes padded) :
    Advances told cap (.ready (some (.file name executable size padded)), parser)
  | pending {parser : NarParser R} {later : Transcript} {fields : List Nat} {less : Nat}
    (split : told = later.after [] fields) (stands : Stands trust later less parser)
    (fewer : less < cap) : Advances told cap (.pending, parser)
  | error {parser : NarParser R} {error : IoError} (fails : Fails R trust told error) :
    Advances told cap (.error error, parser)
  | broken {parser : NarParser R} (none : told.events = []) (past : told.ending = .broken) :
    Advances told cap (.panic, parser)

variable {trust}

/-- A larger budget does no harm. -/
theorem Idle.weaken {told : Transcript} {cap more : Nat} {parser : NarParser R} {reader : R}
    (idle : Idle trust told cap parser reader) (grows : cap ≤ more) :
    Idle trust told more parser reader :=
  { idle with spent := Nat.le_trans idle.spent grows }

/-- A larger budget does no harm to contents. -/
theorem Remains.weaken {told : Transcript} {cap more : Nat} {name : Option Bytes} {state : Inner}
    {bytes : Bytes} {padded : PaddedReader R}
    (remains : Remains trust told cap name state bytes padded) (grows : cap ≤ more) :
    Remains trust told more name state bytes padded := by
  cases remains with
  | broken past stuck => exact .broken past stuck
  | sound sound remaining mark whole cut knows tame spent =>
    exact .sound sound remaining mark whole cut knows tame (Nat.le_trans spent grows)

/-- A larger budget does no harm to a parser. -/
theorem Stands.weaken {told : Transcript} {cap more : Nat} {parser : NarParser R}
    (stands : Stands trust told cap parser) (grows : cap ≤ more) :
    Stands trust told more parser := by
  cases stands with
  | idle idle => exact .idle (idle.weaken grows)
  | exhausted past holds valid knows gone live spent =>
    exact .exhausted past holds valid knows gone live (Nat.le_trans spent grows)
  | returned holds remains => exact .returned holds (remains.weaken grows)

/-- What fails a transcript fails it with more fields before it. -/
theorem Fails.after {told : Transcript} {error : IoError} (fails : Fails R trust told error)
    (fields : List Nat) : Fails R trust (told.after [] fields) error := by
  cases fails with
  | cut none past kind => exact .cut none past kind
  | invalid past => exact .invalid past
  | refused refuses large =>
    refine .refused refuses fun good => ?_
    rcases large good with small | ⟨size, listed, small⟩ | broken
    · exact .inl small
    · exact .inr (.inl ⟨size, List.mem_append_right _ listed, small⟩)
    · exact .inr (.inr broken)
  | irregular bad => exact .irregular bad

/-- A poll that goes on behind a field. -/
theorem Advances.after {told : Transcript} {cap more : Nat}
    {result : Poll (Option (NarEvent (PaddedReader R))) × NarParser R}
    (advances : Advances trust told cap result) (grows : cap ≤ more) (fields : List Nat) :
    Advances trust (told.after [] fields) more result := by
  cases advances with
  | ended past idle =>
    subst past
    exact .ended rfl (idle.weaken grows)
  | @event _ _ event later fields' split idle =>
    subst split
    have joined := later.after_after [] [event.map Empty.elim] fields fields'
    exact .event joined (idle.weaken grows)
  | @file _ name executable size _ bytes later fields' split lent fresh short remains =>
    subst split
    have joined := later.after_after [] [.file name executable size bytes] fields fields'
    exact .file joined lent fresh (Nat.le_trans short grows) (remains.weaken grows)
  | @pending _ later fields' less split stands fewer =>
    subst split
    have joined := later.after_after [] [] fields fields'
    exact .pending joined stands (Nat.lt_of_lt_of_le fewer grows)
  | error fails => exact .error (fails.after fields)
  | broken none past => exact .broken none past

/-! ## One poll of the parser -/

/-- A parser that has just been moved on by `bump_state` at a token. -/
theorem Inner.outlook_awake {name : Option Bytes} {state : Inner} (awake : state.wake = some state)
    (behind : Bytes) : state.outlook name behind = parse name state behind := by
  rw [Inner.outlook, awake]

/-- Behind a name or a target the loop is at a token. -/
theorem fetched_idle {later : Transcript} {aligned : Nat} {reader next : R} (name : Option Bytes)
    (state : Inner) (knows : trust.Knows reader)
    (tame : trust.good → (view.visible reader).length ≤ aligned + trust.bound)
    (valid : view.Valid next) (regular : view.Regular reader → view.Regular next)
    (bounded : (view.visible next).length ≤
      max (view.visible reader).length (aligned + view.chunk reader) - aligned)
    (chunk : view.chunk next ≤ view.chunk reader) (limit : view.limit next = view.limit reader)
    (awake : state.wake = some state)
    (tells : parse name state (view.unread next) = later) :
    Idle trust later (budget next) ⟨.available next, name, state⟩ next where
  holds := rfl
  valid := valid
  knows := knows.next regular chunk limit
  tame good := by
    have small := tame good
    have small' := (knows good).2.1
    omega
  tells := by rw [Inner.outlook_awake awake, tells]
  spent := Nat.le_refl _

section Field

variable {len aligned : UInt64} {reader next : R} {events : List (NarEvent Bytes)}
  {name : Option Bytes} {inner : Inner} {rest : Bytes}

/-- A field that cannot be fetched fails the transcript. -/
theorem Fetches.fails {error : IoError}
    (fetches : Fetches len.toNat aligned.toNat reader (.error error, next))
    (knows : trust.Knows reader) :
    Fails R trust (Found.field len aligned (view.unread reader)
      (.more events [aligned.toNat] name inner rest)).transcript error := by
  cases fetches with
  | ended short kind =>
    rw [Found.field, if_pos short]
    exact .cut rfl rfl kind
  | refused refuses large =>
    refine .refused refuses fun good => .inr ?_
    obtain ⟨ok, _, same⟩ := knows good
    rw [Found.field]
    split
    · exact .inl ⟨aligned.toNat, List.mem_cons_self, same ▸ large ok⟩
    · split
      · exact .inr rfl
      · exact .inl ⟨aligned.toNat, List.mem_cons_self, same ▸ large ok⟩
  | error irregular => exact .irregular fun good => irregular (knows good).1

/-- A field that aborts breaks the transcript. -/
theorem Fetches.breaks (fetches : Fetches len.toNat aligned.toNat reader (.panic, next))
    {more : Found} : Found.field len aligned (view.unread reader) more =
      .last ⟨[], [], .broken⟩ := by
  cases fetches with
  | broken enough wraps =>
    rw [Found.field, if_neg (Nat.not_lt.mpr enough), if_pos (UInt64.lt_iff_toNat_lt.mpr wraps)]

/-- A field that is being gathered stays to be told. -/
theorem Fetches.waits {told : Transcript} (state : Inner) (awake : state.wake = some state)
    (gathers : state.gathered = aligned.toNat)
    (fetches : Fetches len.toNat aligned.toNat reader (.pending, next))
    (knows : trust.Knows reader)
    (tame : trust.good → (view.visible reader).length ≤ aligned.toNat + trust.bound)
    (tells : (state.found name (view.unread reader)).transcript = told) :
    ∃ less, less < budget reader ∧
      Idle trust told less ⟨.available next, name, state⟩ next := by
  cases fetches with
  | pending kept regular bounded positive less =>
    refine ⟨budget next, less, rfl, kept.valid, knows.next regular kept.chunk kept.limit, ?_, ?_,
      Nat.le_refl _⟩
    · intro good
      have small := tame good
      have small' := (knows good).2.1
      rw [gathers]
      omega
    · change state.outlook name (view.unread next) = told
      rw [Inner.outlook_awake awake, parse_gathering (gathers ▸ positive), kept.unread, tells]

end Field

/-- The reader of a file's contents starts with all of them to come. -/
theorem file_remains {nodeType : NodeType} (file : nodeType ≠ .symlink) {size aligned : UInt64}
    {level cap : Nat} {name : Option Bytes} {reader : R} (valid : view.Valid reader)
    (knows : trust.Knows reader)
    (small : trust.good → (view.visible reader).length ≤ trust.bound)
    (spent : budget reader ≤ cap) :
    ∃ later, (Inner.found name ⟨.readContents nodeType size aligned, level⟩
        (view.unread reader)).transcript = later.after [.file (name.getD [])
          (nodeType = .executableFile) size ((view.unread reader).take size.toNat)] [] ∧
      Remains trust later cap none ⟨.readContents nodeType size aligned, level⟩
        ((view.unread reader).take size.toNat) (PaddedReader.new reader size) := by
  have found := Inner.found_file file name size aligned level (view.unread reader)
  by_cases fits : Fits size
  · obtain ⟨sound, due, owed⟩ := PaddedReader.new_sound valid fits
    have remaining : (PaddedReader.new reader size).remaining =
        (view.unread reader).take size.toNat := by
      rw [PaddedReader.remaining, due]
      rfl
    have left : (PaddedReader.new reader size).left =
        (view.unread reader).drop (alignNat size.toNat) := by
      rw [PaddedReader.left, owed]
      rfl
    have complete : (PaddedReader.new reader size).Complete ↔
        alignNat size.toNat ≤ (view.unread reader).length := by
      rw [PaddedReader.Complete, owed]
      rfl
    have mark : Inner.wake ⟨.readContents nodeType size aligned, level⟩ =
        some ⟨.finishNode 0, level⟩ := by
      cases nodeType <;> first | rfl | exact absurd rfl file
    rw [if_neg (not_not.mpr fits)] at found
    by_cases short : (view.unread reader).length < alignNat size.toNat
    · rw [if_pos short] at found
      refine ⟨⟨[], [], .cut (breachAt size (view.unread reader))⟩, by rw [found]; rfl,
        .sound sound remaining mark ?_ ?_ knows (fun good => .inl (small good)) spent⟩
      · intro all
        have := complete.mp all
        omega
      · intro _
        rw [PaddedReader.new_breach valid fits]
    · rw [if_neg short] at found
      refine ⟨parse none ⟨.finishNode 0, level⟩ ((view.unread reader).drop (alignNat size.toNat)),
        by rw [found]; rfl, .sound sound remaining mark ?_ ?_ knows
        (fun good => .inl (small good)) spent⟩
      · intro _
        rw [left, Inner.outlook, mark]
      · exact fun cut => absurd (complete.mpr (by omega)) cut
  · rw [if_pos fits] at found
    exact ⟨⟨[], [], .broken⟩, by rw [found]; rfl, .broken rfl (PaddedReader.new_stuck fits)⟩

/-- The parser's answer at a state in which the automaton has halted. -/
theorem stopped_advances {again : R → Option Bytes → Inner →
      Poll (Option (NarEvent (PaddedReader R))) × NarParser R}
    {reader : R} {name : Option Bytes} {state : Inner} {told : Transcript} {cap : Nat}
    (valid : view.Valid reader) (knows : trust.Knows reader)
    (tame : trust.good → (view.visible reader).length ≤ state.gathered + trust.bound)
    (halted : Halted false state)
    (tells : (state.found name (view.unread reader)).transcript = told)
    (spent : budget reader ≤ cap)
    (more : ∀ {bytes : Bytes} {fields : List Nat} {next : R} {later : Transcript},
      state.found name (view.unread reader) =
        .more [] fields (some bytes) ⟨.readNode 0, state.level⟩ (view.unread next) →
      Idle trust later (budget next) ⟨.available next, some bytes, ⟨.readNode 0, state.level⟩⟩ next →
      Advances trust later (budget next) (again next (some bytes) ⟨.readNode 0, state.level⟩)) :
    Advances trust told cap
      (NarParser.stopped again reader (view.visible reader) name state) := by
  obtain ⟨state, level⟩ := state
  -- A directory mark and the end leave the reader as it is.
  have idle {name' : Option Bytes} {later : Transcript}
      (still : Inner.gathered ⟨state, level⟩ = 0)
      (later_eq : Inner.outlook name' ⟨state, level⟩ (view.unread reader) = later) :
      Idle trust later cap ⟨.available reader, name', ⟨state, level⟩⟩ reader :=
    ⟨rfl, valid, knows, tame, later_eq, spent⟩
  cases state with
  | readContents nodeType size aligned =>
    by_cases link : nodeType = .symlink
    · subst link
      have fetched := takeField_fetches size.toNat aligned.toNat valid
      simp only [NarParser.stopped, Inner.bumpState]
      generalize takeField reader (view.visible reader) size.toNat aligned.toNat = result at fetched
      obtain ⟨answer, next⟩ := result
      cases answer with
      | ready target =>
        cases fetched with
        | ready valid' regular enough fits unread bounded chunk limit less =>
          have split : told = (parse none ⟨.finishNode 0, level⟩ (view.unread next)).after
              [NarEvent.map Empty.elim (.symlink (name.getD [])
                ((view.unread reader).take size.toNat))] [aligned.toNat] := by
            rw [← tells, Inner.found_symlink, Found.field_whole enough fits, unread]
            rfl
          have settled := fetched_idle none ⟨.finishNode 0, level⟩ knows tame valid' regular bounded
            chunk limit rfl rfl
          exact .event split (settled.weaken (Nat.le_trans less spent))
      | pending =>
        obtain ⟨less, fewer, waiting⟩ := fetched.waits
          ⟨.readContents .symlink size aligned, level⟩ rfl rfl knows tame tells
        exact .pending told.after_nil.symm (.idle waiting) (Nat.lt_of_lt_of_le fewer spent)
      | error error => exact .error (tells ▸ fetched.fails knows)
      | panic =>
        rw [Inner.found_symlink, fetched.breaks] at tells
        subst tells
        exact .broken rfl rfl
    · have answer : NarParser.stopped again reader (view.visible reader) name
          ⟨.readContents nodeType size aligned, level⟩ =
          (.ready (some (.file (name.getD []) (nodeType = .executableFile) size
            (PaddedReader.new reader size))),
            ⟨.lent none, none, ⟨.readContents nodeType size aligned, level⟩⟩) := by
        cases nodeType <;> first | rfl | exact absurd rfl link
      rw [answer]
      have small : trust.good → (view.visible reader).length ≤ trust.bound := by
        intro good
        have small := tame good
        cases nodeType <;> first | (simpa [Inner.gathered] using small) | exact absurd rfl link
      obtain ⟨later, split, remains⟩ :=
        @file_remains R _ _ trust _ link size aligned level cap name reader valid knows small spent
      rw [tells] at split
      have covers : (view.unread reader).length ≤ budget reader := covered
      refine .file split rfl ⟨reader, rfl⟩ ?_ remains
      rw [List.length_take]
      omega
  | readEntryName len aligned =>
    have fetched := takeField_fetches len.toNat aligned.toNat valid
    simp only [NarParser.stopped, Inner.bumpState]
    generalize takeField reader (view.visible reader) len.toNat aligned.toNat = result at fetched
    obtain ⟨answer, next⟩ := result
    cases answer with
    | ready bytes =>
      cases fetched with
      | ready valid' regular enough fits unread bounded chunk limit less =>
        have found : Inner.found name ⟨.readEntryName len aligned, level⟩ (view.unread reader) =
            .more [] [aligned.toNat] (some ((view.unread reader).take len.toNat))
              ⟨.readNode 0, level⟩ (view.unread next) := by
          rw [Inner.found_name, Found.field_whole enough fits, unread]
        have settled := fetched_idle (some ((view.unread reader).take len.toNat))
          ⟨.readNode 0, level⟩ knows tame valid' regular bounded chunk limit rfl rfl
        have later := more found settled
        rw [found] at tells
        subst tells
        exact later.after (Nat.le_trans less spent) [aligned.toNat]
    | pending =>
      obtain ⟨less, fewer, waiting⟩ := fetched.waits ⟨.readEntryName len aligned, level⟩ rfl rfl
        knows tame tells
      exact .pending told.after_nil.symm (.idle waiting) (Nat.lt_of_lt_of_le fewer spent)
    | error error => exact .error (tells ▸ fetched.fails knows)
    | panic =>
      rw [Inner.found_name, fetched.breaks] at tells
      subst tells
      exact .broken rfl rfl
  | readDir =>
    have split : told = (parse none ⟨.readEntries default, level⟩ (view.unread reader)).after
        [NarEvent.map Empty.elim (.startDirectory (name.getD []))] [] := tells.symm
    exact .event split (idle rfl rfl)
  | finishReadEntry =>
    have split : told = (Inner.outlook name ⟨.finishReadEntry, level⟩ (view.unread reader)).after
        [NarEvent.map Empty.elim .endDirectory] [] := by
      rw [← tells]
      simp only [Inner.found, Found.transcript, Inner.outlook, Inner.wake, Inner.bumpState]
      split <;> rfl
    exact .event split (idle rfl rfl)
  | eof => exact .ended tells.symm (idle rfl (parse_eof _ _ _))
  | _ => exact halted.elim

/-- A state that the automaton has not halted in is kept by the next poll. -/
theorem Inner.waiting_awake {state : Inner} (waiting : ¬ Halted false state) :
    state.wake = some state ∧ state.state ≠ .eof ∧ state.gathered = 0 := by
  obtain ⟨state, level⟩ := state
  cases state <;>
    first | exact ⟨rfl, InnerState.noConfusion, rfl⟩ | exact absurd (by trivial) waiting

/-- A state in which a field is gathered is halted at once. -/
theorem Inner.gathered_drive {state next : Inner} {buf : Bytes} {n : Nat}
    (ran : drive false state buf = .done next n) :
    state.gathered = 0 ∨ (next = state ∧ n = 0) := by
  by_cases zero : state.gathered = 0
  · exact .inl zero
  · have stays : drive false state buf = .done state 0 := by
      apply (drive_lawful false).run_stop (m := driveMachine false)
      obtain ⟨state, level⟩ := state
      cases state <;> first | rfl | exact absurd rfl zero
    rw [stays, Run.done.injEq] at ran
    exact .inr ⟨ran.1.symm, ran.2.symm⟩

/-- Every rank is at most two. -/
theorem driveRank_le (state : Inner) : driveRank state ≤ 2 := by
  obtain ⟨state, level⟩ := state
  cases state <;> simp only [driveRank] <;> first | omega | (split <;> omega)

/-- The loop of the parser tells the next of the transcript. -/
theorem pollLoop_advances (fuel : Nat) {reader : R} {name : Option Bytes} {state : Inner}
    {told : Transcript} {cap : Nat}
    (idle : Idle trust told cap ⟨.available reader, name, state⟩ reader)
    (awake : state.wake = some state) (live : state.state ≠ .eof)
    (enough : 3 * (view.unread reader).length + driveRank state < fuel) :
    Advances trust told cap (NarParser.pollLoop fuel reader name state) := by
  induction fuel generalizing reader name state told cap with
  | zero => exact absurd enough (Nat.not_lt_zero _)
  | succ fuel ih =>
    obtain ⟨_, valid, knows, tame, tells, spent⟩ := idle
    rw [Inner.outlook_awake awake] at tells
    rw [NarParser.pollLoop]
    have filled := fills valid
    generalize pollFillBuf reader = result at filled
    cases filled with
    | @ready next kept regular same bounded ends =>
      have knows' := knows.next regular kept.chunk kept.limit
      have joined : view.unread reader = view.visible next ++ view.rest next :=
        kept.unread.symm
      have tame' (good : trust.good) :
          (view.visible next).length ≤ state.gathered + trust.bound := by
        by_cases none : view.visible reader = []
        · have small := bounded none
          have small' := (knows good).2.1
          omega
        · rw [same none]
          exact tame good
      by_cases none : view.visible next = []
      · simp only [if_pos none]
        rw [joined, none, ends none, List.append_nil, parse_nil live] at tells
        subst tells
        exact .error (.cut rfl rfl rfl)
      · simp only [if_neg none]
        rw [joined] at tells
        cases ran : drive false state (view.visible next) with
        | fail s e =>
          rw [parse_failed live none ran] at tells
          subst tells
          exact .error (.invalid rfl)
        | panic =>
          rw [parse_panicked live none ran] at tells
          subst tells
          exact .broken rfl rfl
        | done s n =>
          obtain ⟨within, whole⟩ := (drive_lawful false).run_used _ _ ran
          obtain ⟨after, took, valid', regular', shown, unread, chunk, limit, less⟩ :=
            consumes_unread kept.valid within
          have knows'' := knows'.next regular' chunk limit
          have less' := kept.budget
          have size := congrArg List.length kept.unread
          simp only [took]
          rw [← shown]
          have behind : view.unread after = (view.visible next).drop n ++ view.rest next := by
            rw [unread, View.unread, List.drop_append_of_le_length within]
          have tame'' (good : trust.good) :
              (view.visible after).length ≤ s.gathered + trust.bound := by
            have small := tame' good
            rw [shown, List.length_drop]
            rcases Inner.gathered_drive ran with zero | ⟨rfl, rfl⟩
            · omega
            · omega
          by_cases halted : Halted false s
          · rw [parse_halted live none ran halted, ← behind] at tells
            refine stopped_advances valid' knows'' tame'' halted tells (by omega) ?_
            intro bytes fields following later found settled
            refine ih settled rfl InnerState.noConfusion ?_
            have ended : drive false state (view.unread reader) = .done s n := by
              rw [joined]
              exact (drive_lawful false).run_append_halted _ _ _ ran halted
            have first : state.find name (view.unread reader) =
                .more [] fields (some bytes) ⟨.readNode 0, s.level⟩ (view.unread following) := by
              rw [Inner.find, ended, ← found, unread, kept.unread]
            have shrinks := Inner.find_shrinks first
            omega
          · have all := whole halted
            subst all
            obtain ⟨awake', live', still⟩ := Inner.waiting_awake halted
            rw [parse_resume live none ran halted] at tells
            have again : NarParser.stopped (NarParser.pollLoop fuel) after (view.visible after) name s =
                NarParser.pollLoop fuel after name s := by
              obtain ⟨state, level⟩ := s
              cases state <;> first | rfl | exact absurd (by trivial) halted
            rw [again]
            refine ih ⟨rfl, valid', knows'', tame'', ?_, by omega⟩ awake' live' ?_
            · change s.outlook name (view.unread after) = told
              rw [Inner.outlook_awake awake', behind, List.drop_length, List.nil_append, tells]
            · have positive := List.length_pos_of_ne_nil none
              have small := driveRank_le s
              have covers : (view.visible next).length ≤ (view.unread next).length := by
                rw [View.unread, List.length_append]
                omega
              rw [unread, List.length_drop]
              omega
    | @pending next kept regular same less =>
      refine .pending told.after_nil.symm (.idle ⟨rfl, kept.valid,
        knows.next regular kept.chunk kept.limit, ?_, ?_, Nat.le_refl _⟩)
        (Nat.lt_of_lt_of_le less spent)
      · rw [same]
        exact tame
      · change state.outlook name (view.unread next) = told
        rw [Inner.outlook_awake awake, kept.unread, tells]
    | error kept same irregular =>
      exact .error (.irregular fun good => irregular (knows good).1)

/-- What taking the reader back does. -/
inductive Returns (trust : Trust) (told : Transcript) (cap : Nat) (name : Option Bytes)
    (state : Inner) : Poll R × Lending R → Prop
  | ready {reader : R} (idle : Idle trust told cap ⟨.available reader, name, state⟩ reader) :
    Returns trust told cap name state (.ready reader, .available reader)
  | exhausted {reader : R} {breach : Breach} (past : told = ⟨[], [], .cut breach⟩)
    (valid : view.Valid reader) (knows : trust.Knows reader) (gone : view.unread reader = [])
    (live : ∃ next, state.wake = some next ∧ next.wake = some next ∧ next.state ≠ .eof)
    (spent : budget reader ≤ cap) :
    Returns trust told cap name state (.ready reader, .available reader)
  | pending {padded : PaddedReader R} {less : Nat} {bytes : Bytes}
    (remains : Remains trust told less name state bytes padded) (fewer : less < cap) :
    Returns trust told cap name state (.pending, .drain padded)
  | error {lending : Lending R} {error : IoError} (fails : Fails R trust told error) :
    Returns trust told cap name state (.error error, lending)
  | broken {lending : Lending R} (past : told = ⟨[], [], .broken⟩) :
    Returns trust told cap name state (.panic, lending)

/-- There are always turns enough to drain contents. -/
theorem PaddedReader.Sound.drainTurns {padded : PaddedReader R} (sound : padded.Sound) :
    padded.remaining.length < padded.drainTurns := by
  have held := sound.held_length
  have covers : (view.unread padded.reader).length ≤ budget padded.reader := covered
  rw [PaddedReader.remaining, PaddedReader.drainTurns, List.length_take, PaddedReader.ahead,
    List.length_append]
  omega

/-- Draining gives the reader back at the end of the contents. -/
theorem Remains.returns {told : Transcript} {cap : Nat} {name : Option Bytes} {state : Inner}
    {bytes : Bytes} {padded : PaddedReader R}
    (remains : Remains trust told cap name state bytes padded) :
    Returns trust told cap name state (Lending.pollReady (.drain padded)) := by
  rw [Lending.pollReady]
  cases remains with
  | broken past stuck =>
    have panics : padded.pollDrain padded.drainTurns = (.panic, padded) := by
      rw [PaddedReader.drainTurns, PaddedReader.pollDrain, PaddedReader.pollFill, PaddedReader.fillWith, stuck]
    rw [panics]
    exact .broken past
  | sound sound remaining mark whole cut knows tame spent =>
    have drained := PaddedReader.pollDrain_drains _ sound sound.drainTurns
    have still : state.gathered = 0 := by
      obtain ⟨state, level⟩ := state
      cases state with
      | readContents nodeType size aligned => cases nodeType <;> first | rfl | cases mark
      | readEntryName => cases mark
      | _ => rfl
    generalize padded.pollDrain padded.drainTurns = result at drained
    cases drained with
    | @ready next sound' regular tame' whole' cut' chunk limit less =>
      by_cases complete : padded.Complete
      · refine .ready ⟨rfl, sound'.valid, knows.next regular chunk limit, ?_, ?_,
          Nat.le_trans less spent⟩
        · intro good
          have small := tame' (knows good).2.1 (tame good)
          omega
        · change state.outlook name (view.unread next.reader) = told
          rw [whole' complete, whole complete]
      · exact .exhausted (cut complete) sound'.valid (knows.next regular chunk limit)
          (cut' complete) ⟨_, mark, rfl, InnerState.noConfusion⟩ (Nat.le_trans less spent)
    | @pending next sound' regular tame' left complete lacks chunk limit less =>
      refine .pending (.sound sound' rfl mark ?_ ?_ (knows.next regular chunk limit) ?_
        (Nat.le_refl _)) (Nat.lt_of_lt_of_le less spent)
      · exact fun all => left ▸ whole (complete.mp all)
      · intro short
        rw [PaddedReader.breach_eq lacks]
        exact cut fun all => short (complete.mpr all)
      · exact fun good => tame' (knows good).2.1 (tame good)
    | ended sound' short kind =>
      rw [cut short]
      exact .error (.cut rfl rfl kind)
    | refused sound' refuses large =>
      refine .error (.refused refuses fun good => .inl ?_)
      obtain ⟨ok, small, same⟩ := knows good
      exact same ▸ large ok small (tame good)
    | error sound' irregular => exact .error (.irregular fun good => irregular (knows good).1)

/-- Leaving the state of the last event leads to a token, to the end, or nowhere. -/
theorem Inner.wake_cases {state next : Inner} (woken : state.wake = some next) :
    (next.state = .eof ∧ state.gathered = 0 ∧ next.wake = some next ∧ next.gathered = 0) ∨
      (next.state ≠ .eof ∧ next.wake = some next ∧ state.gathered = next.gathered) := by
  obtain ⟨state, level⟩ := state
  cases state with
  | readContents nodeType size aligned =>
    cases nodeType <;> cases woken <;> exact .inr ⟨InnerState.noConfusion, rfl, rfl⟩
  | finishReadEntry =>
    simp only [Inner.wake, Inner.bumpState] at woken
    split at woken
    · cases woken
      exact .inr ⟨InnerState.noConfusion, rfl, rfl⟩
    · cases woken
      exact .inl ⟨rfl, rfl, rfl, rfl⟩
  | eof =>
    cases woken
    exact .inl ⟨rfl, rfl, rfl, rfl⟩
  | _ =>
    cases woken
    exact .inr ⟨InnerState.noConfusion, rfl, rfl⟩

/-- Behind the end of the archive the loop can only fail. -/
theorem pollLoop_exhausted (fuel : Nat) {breach : Breach} {cap : Nat} {reader : R}
    {name : Option Bytes} {state : Inner} (valid : view.Valid reader) (knows : trust.Knows reader)
    (gone : view.unread reader = []) (awake : state.wake = some state) (live : state.state ≠ .eof)
    (spent : budget reader ≤ cap) :
    Advances trust ⟨[], [], .cut breach⟩ cap
      (NarParser.pollLoop (fuel + 1) reader name state) := by
  rw [NarParser.pollLoop]
  have filled := fills valid
  generalize pollFillBuf reader = result at filled
  cases filled with
  | @ready next kept regular same bounded ends =>
    have none : view.visible next = [] :=
      (List.append_eq_nil_iff.mp (kept.unread.trans gone)).1
    simp only [if_pos none]
    exact .error (.cut rfl rfl rfl)
  | @pending next kept regular same less =>
    refine .pending (Transcript.after_nil _).symm (.exhausted rfl rfl kept.valid
      (knows.next regular kept.chunk kept.limit) (kept.unread.trans gone)
      ⟨state, awake, awake, live⟩ (Nat.le_refl _)) (Nat.lt_of_lt_of_le less spent)
  | error kept same irregular => exact .error (.irregular fun good => irregular (knows good).1)

/-- `poll_next` tells the next of the transcript. -/
theorem Stands.advances {told : Transcript} {cap : Nat} {this : NarParser R}
    (stands : Stands trust told cap this) : Advances trust told cap this.pollNext := by
  have returns : Returns trust told cap this.name this.state this.reader.pollReady := by
    cases stands with
    | @idle reader idle =>
      rw [idle.holds]
      exact .ready ⟨rfl, idle.valid, idle.knows, idle.tame, idle.tells, idle.spent⟩
    | exhausted past holds valid knows gone live spent =>
      rw [holds]
      exact .exhausted past valid knows gone live spent
    | returned holds remains =>
      rcases holds with holds | holds
      · rw [holds]
        exact remains.returns
      · rw [holds]
        exact remains.returns
  rw [NarParser.pollNext]
  generalize this.reader.pollReady = result at returns
  cases returns with
  | @ready reader idle =>
    obtain ⟨_, valid, knows, tame, tells, spent⟩ := idle
    simp only
    cases woken : this.state.wake with
    | none =>
      simp only [Inner.outlook, woken] at tells
      subst tells
      exact .broken rfl rfl
    | some next =>
      simp only [Inner.outlook, woken] at tells
      rcases Inner.wake_cases woken with ⟨ended, still, awake, still'⟩ | ⟨live, awake, same⟩
      · simp only [if_pos ended]
        have past : parse this.name next (view.unread reader) =
            ⟨[], [], .clean (view.unread reader)⟩ := by
          rw [parse, if_pos ended]
        rw [past] at tells
        refine .ended tells.symm ⟨rfl, valid, knows, ?_, ?_, spent⟩
        · change trust.good → (view.visible reader).length ≤ next.gathered + trust.bound
          rw [still', ← still]
          exact tame
        · change next.outlook this.name (view.unread reader) = _
          rw [Inner.outlook_awake awake, past]
      · simp only [if_neg live]
        have covers : (view.unread reader).length ≤ budget reader := covered
        have small := driveRank_le next
        refine pollLoop_advances _ ⟨rfl, valid, knows, ?_, ?_, spent⟩ awake live (by omega)
        · change trust.good → (view.visible reader).length ≤ next.gathered + trust.bound
          rw [← same]
          exact tame
        · change next.outlook this.name (view.unread reader) = told
          rw [Inner.outlook_awake awake, tells]
  | exhausted past valid knows gone live spent =>
    obtain ⟨next, woken, awake, live⟩ := live
    subst past
    simp only [woken, if_neg live]
    exact pollLoop_exhausted _ valid knows gone awake live spent
  | pending remains fewer =>
    exact .pending told.after_nil.symm (.returned (.inr rfl) remains) fewer
  | error fails => exact .error fails
  | broken past =>
    subst past
    exact .broken rfl rfl

end Harmonia.Nar
