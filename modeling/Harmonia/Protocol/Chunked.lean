import Harmonia.Io.Gather
import Harmonia.Io.Prepare
import Harmonia.Protocol.Read

/-!
# Reading from chunks

`NixReader` over a buffered reader: `TryReadU64` and `TryReadBytesLimited` as the state machines
they are, and a deserialiser that awaits them one after the other. Whatever the chunks and the
pending polls, a deserialiser finds what `Read.run` finds in the bytes, except that the buffered
reader may refuse a text for which its buffer would have to grow too large.
-/

namespace Harmonia.Protocol

open Library Store

section Words

variable {R : Type} [AsyncBufRead R]

/-- What a step of reading did: some bytes were taken off. -/
structure Moved (view : View R) (reader next : R) (taken : Bytes) : Prop where
  /-- The bookkeeping. -/
  valid : view.Valid next
  /-- The bytes. -/
  unread : view.unread reader = taken ++ view.unread next
  /-- The limit. -/
  limit : view.limit next = view.limit reader
  /-- The budget covers them. -/
  spent : budget next + taken.length ≤ budget reader

/-- Steps add up. -/
theorem Moved.trans {view : View R} {first second third : R} {left right : Bytes}
    (one : Moved view first second left) (two : Moved view second third right) :
    Moved view first third (left ++ right) := by
  refine ⟨two.valid, ?_, two.limit.trans one.limit, ?_⟩
  · rw [one.unread, two.unread, List.append_assoc]
  · have before := one.spent
    have after := two.spent
    rw [List.length_append]
    omega

/-- A poll that keeps everything takes nothing. -/
theorem Moved.of_kept {view : View R} {reader next : R} (kept : view.Kept reader next) :
    Moved view reader next [] :=
  ⟨kept.valid, kept.unread.symm, kept.limit, kept.budget⟩

/-- `TryReadU64::poll_reader`, with the bytes read so far. Each read adds one at least. -/
def TryReadU64.pollReader : Nat → Bytes × R → Poll (Option UInt64) × (Bytes × R)
  | fuel, (read, reader) =>
    if read.length < 8 then
      match fuel with
      | 0 => (.panic, read, reader)
      | fuel + 1 =>
        match pollRead reader (8 - read.length) with
        | (.ready filled, reader) =>
          if filled = [] then
            if read = [] then (.ready none, read, reader)
            else (.error ⟨.unexpectedEof, "EOF reading u64"⟩, read, reader)
          else pollReader fuel (read ++ filled, reader)
        | (.pending, reader) => (.pending, read, reader)
        | (.error error, reader) => (.error error, read, reader)
        | (.panic, reader) => (.panic, read, reader)
    else (.ready (some (fromLeBytes read)), read, reader)

/-- What polling for a word does. -/
inductive WordPolled (view : View R) (read : Bytes) (reader : R) :
    Poll (Option UInt64) × (Bytes × R) → Prop
  | ended {next : R} {more : Bytes} (moved : Moved view reader next more)
    (regular : view.Regular reader → view.Regular next) (nothing : read ++ more = [])
    (empty : view.unread next = []) : WordPolled view read reader (.ready none, read ++ more, next)
  | word {next : R} {more : Bytes} (moved : Moved view reader next more)
    (regular : view.Regular reader → view.Regular next) (eight : (read ++ more).length = 8) :
    WordPolled view read reader (.ready (some (fromLeBytes (read ++ more))), read ++ more, next)
  | pending {next : R} {more : Bytes} (moved : Moved view reader next more)
    (regular : view.Regular reader → view.Regular next) (fewer : (read ++ more).length < 8)
    (less : budget next < budget reader) :
    WordPolled view read reader (.pending, read ++ more, next)
  | torn {next : R} {more : Bytes} {error : IoError} (moved : Moved view reader next more)
    (regular : view.Regular reader → view.Regular next) (began : read ++ more ≠ []) (fewer : (read ++ more).length < 8) (empty : view.unread next = []) :
    WordPolled view read reader (.error error, read ++ more, next)
  | failed {next : R} {more : Bytes} {error : IoError} (moved : Moved view reader next more)
    (irregular : ¬ view.Regular reader) :
    WordPolled view read reader (.error error, read ++ more, next)

/-- Polling goes on where a read has left it. -/
theorem WordPolled.of_next {view : View R} {read filled : Bytes} {reader next : R}
    {result : Poll (Option UInt64) × (Bytes × R)} (moved : Moved view reader next filled)
    (regular : view.Regular reader → view.Regular next)
    (later : WordPolled view (read ++ filled) next result) :
    WordPolled view read reader result := by
  have spent := moved.spent
  cases later with
  | ended moved' regular' nothing empty =>
    rw [List.append_assoc] at nothing ⊢
    exact .ended (moved.trans moved') (regular' ∘ regular) nothing empty
  | word moved' regular' eight =>
    rw [List.append_assoc] at eight ⊢
    exact .word (moved.trans moved') (regular' ∘ regular) eight
  | pending moved' regular' fewer less =>
    rw [List.append_assoc] at fewer ⊢
    exact .pending (moved.trans moved') (regular' ∘ regular) fewer (by omega)
  | torn moved' regular' began fewer empty =>
    rw [List.append_assoc] at began fewer ⊢
    exact .torn (moved.trans moved') (regular' ∘ regular) began fewer empty
  | failed moved' irregular =>
    rw [List.append_assoc]
    exact .failed (moved.trans moved') fun ok => irregular (regular ok)

variable [LawfulBufRead R]

/-- Polling for a word. -/
theorem TryReadU64.pollReader_polled (fuel : Nat) {read : Bytes} {reader : R}
    (valid : view.Valid reader) (few : read.length ≤ 8) (enough : 8 ≤ read.length + fuel) :
    WordPolled view read reader (pollReader fuel (read, reader)) := by
  have still {next : R} (kept : view.Kept reader next) : Moved view reader next [] := .of_kept kept
  induction fuel generalizing read reader with
  | zero =>
    unfold pollReader
    rw [if_neg (by omega)]
    have same : Moved view reader reader [] :=
      ⟨valid, rfl, rfl, Nat.le_refl _⟩
    simpa using WordPolled.word same id (by simp; omega)
  | succ fuel ih =>
    unfold pollReader
    by_cases more : read.length < 8
    · rw [if_pos more]
      have taken := pollRead_takes valid (8 - read.length)
      generalize pollRead reader (8 - read.length) = result at taken
      cases taken with
      | @ready next filled valid' regular joined within ends bounded chunk limit spent =>
        have moved : Moved view reader next filled := ⟨valid', joined, limit, spent⟩
        by_cases nothing : filled = []
        · subst nothing
          have empty : view.unread next = [] := by
            rcases ends rfl with zero | ended
            · omega
            · rw [joined] at ended
              exact ended
          simp only [if_true]
          by_cases first : read = []
          · rw [if_pos first]
            subst first
            exact @WordPolled.ended R _ view [] reader next [] moved regular rfl empty
          · rw [if_neg first]
            simpa using WordPolled.torn moved regular (by simpa using first) (by simpa using more) empty
        · simp only [if_neg nothing]
          have positive := List.length_pos_of_ne_nil nothing
          refine .of_next moved regular (ih valid' ?_ ?_ fun kept => .of_kept kept)
          · rw [List.length_append]
            omega
          · rw [List.length_append]
            omega
      | pending kept regular same less =>
        simpa using WordPolled.pending (still kept) regular (by simpa using more) less
      | error kept same irregular =>
        simpa using WordPolled.failed (still kept) irregular
    · rw [if_neg more]
      have same : Moved view reader reader [] := ⟨valid, rfl, rfl, Nat.le_refl _⟩
      simpa using WordPolled.word same id (by simp; omega)

/-- Awaiting a word: with enough patience it does not stay pending. -/
theorem TryReadU64.await_polled {patience : Nat} {read : Bytes} {reader : R}
    (valid : view.Valid reader) (few : read.length ≤ 8) (patient : budget reader < patience) :
    WordPolled view read reader (await (pollReader 8) patience (read, reader)) ∧
      (await (pollReader 8) patience (read, reader)).1 ≠ .pending := by
  induction patience generalizing read reader with
  | zero => cases patient
  | succ patience ih =>
    have polled := pollReader_polled 8 valid few (Nat.le_add_left _ _)
    unfold await
    generalize pollReader 8 (read, reader) = result at polled
    cases polled with
    | pending moved regular fewer less =>
      obtain ⟨later, answered⟩ := ih moved.valid (Nat.le_of_lt fewer) (by omega)
      exact ⟨.of_next moved regular later, answered⟩
    | ended moved regular nothing empty =>
      exact ⟨.ended moved regular nothing empty, nofun⟩
    | word moved regular eight => exact ⟨.word moved regular eight, nofun⟩
    | torn moved regular began fewer empty => exact ⟨.torn moved regular began fewer empty, nofun⟩
    | failed moved irregular => exact ⟨.failed moved irregular, nofun⟩

end Words

/-! ## Strings -/

/-- Room that is asked for because of a number that was read. -/
inductive Room where
  /-- So many bytes in the buffer of the reader. -/
  | buffer (bytes : Nat)
  /-- So many items of a vector, each of such a size. -/
  | items (count size : Nat)
  deriving DecidableEq, Repr

/-- `NixReader`. The rooms it asks for are noted down. -/
structure NixReader (R : Type) where
  /-- `inner`. -/
  inner : R
  /-- `max_buf_size`. -/
  maxBufSize : Nat
  /-- No buffer is larger than `isize::MAX`. -/
  small : maxBufSize < 2 ^ 63
  /-- Whether slices of the buffer are held elsewhere, at the next calls of `prepare`. -/
  held : List Bool
  /-- The rooms that were asked for. -/
  requested : List Room

namespace NixReader

section Polls

variable {R : Type} [AsyncBytesRead R] [AsyncPrepare R]

/-- `prepare`. -/
def makeRoom (reader : NixReader R) (additional : Nat) : NixReader R :=
  { reader with
    inner := prepare reader.inner (reader.held.headD true) additional
    held := reader.held.tail
    requested := reader.requested ++ [.buffer additional] }

/-- `TryReadBytesLimited`, with a range that starts at zero. -/
inductive Stage where
  /-- `ReadLen`, with the bytes read so far. -/
  | readLen (read : Bytes)
  /-- `Fill`. -/
  | fill (len aligned : Nat)
  /-- `Done`. -/
  | done

/-- `TryReadBytesLimited::poll_reader` in `Fill`. -/
def pollFill (len aligned : Nat) (reader : NixReader R) :
    Poll (Option Bytes) × (Stage × NixReader R) :=
  match pollFillBuf reader.inner with
  | (.ready buf, inner) =>
    match forceUntil aligned aligned inner buf with
    | (.ready buf, inner) =>
      match consume inner aligned with
      | some inner =>
        if (buf.take aligned).drop len ≠ zeros.take (aligned - len) then
          (.error (invalidData "non-zero padding"), .done, { reader with inner := inner })
        else (.ready (some ((buf.take aligned).take len)), .done, { reader with inner := inner })
      | none => (.panic, .done, { reader with inner := inner })
    | (.pending, inner) => (.pending, .fill len aligned, { reader with inner := inner })
    | (.error error, inner) => (.error error, .fill len aligned, { reader with inner := inner })
    | (.panic, inner) => (.panic, .fill len aligned, { reader with inner := inner })
  | (.pending, inner) => (.pending, .fill len aligned, { reader with inner := inner })
  | (.error error, inner) => (.error error, .fill len aligned, { reader with inner := inner })
  | (.panic, inner) => (.panic, .fill len aligned, { reader with inner := inner })

/-- `TryReadBytesLimited::poll_reader`. -/
def pollBytes : Stage × NixReader R → Poll (Option Bytes) × (Stage × NixReader R)
  | (.readLen read, reader) =>
    match TryReadU64.pollReader 8 (read, reader.inner) with
    | (.ready (some rawLen), read, inner) =>
      let reader := { reader with inner := inner }
      if reader.maxBufSize < rawLen.toNat then
        (.error (invalidData "bytes length out of range"), .readLen read, reader)
      else if 2 ^ 64 ≤ rawLen.toNat + 7 then
        (.error (invalidData "aligned bytes length out of range"), .readLen read, reader)
      else if 0 < (calcAligned rawLen).toNat then
        pollFill rawLen.toNat (calcAligned rawLen).toNat (reader.makeRoom (calcAligned rawLen).toNat)
      else (.ready (some []), .done, reader)
    | (.ready none, _, inner) => (.ready none, .done, { reader with inner := inner })
    | (.pending, read, inner) => (.pending, .readLen read, { reader with inner := inner })
    | (.error error, read, inner) => (.error error, .readLen read, { reader with inner := inner })
    | (.panic, read, inner) => (.panic, .readLen read, { reader with inner := inner })
  | (.fill len aligned, reader) => pollFill len aligned reader
  | (.done, reader) => (.panic, .done, reader)

/-! ## Deserialisers -/

/-- `try_read_number`, awaited. -/
def tryReadNumber (patience : Nat) (reader : NixReader R) : Poll (Option UInt64) × NixReader R :=
  match await (TryReadU64.pollReader 8) patience ([], reader.inner) with
  | (answer, _, inner) => (answer, { reader with inner := inner })

/-- `try_read_bytes`, awaited. -/
def tryReadBytes (patience : Nat) (reader : NixReader R) : Poll (Option Bytes) × NixReader R :=
  match await pollBytes patience (.readLen [], reader) with
  | (answer, _, reader) => (answer, reader)

/-- A deserialiser that awaits what it asks for, one thing after the other, on a stack with room for so many
calls inside one another; more of them abort it. -/
def runOn {α : Type} (stack : Option Nat) (patience : Nat) : Read α → NixReader R → Poll α × NixReader R
  | .done value, reader => (.ready value, reader)
  | .fail error, reader => (.error error, reader)
  | .number next, reader =>
    match reader.tryReadNumber patience with
    | (.ready value, reader) => runOn stack patience (next value) reader
    | (.pending, reader) => (.pending, reader)
    | (.error error, reader) => (.error error, reader)
    | (.panic, reader) => (.panic, reader)
  | .bytes next, reader =>
    match reader.tryReadBytes patience with
    | (.ready none, reader) => runOn stack patience (next none) reader
    | (.ready (some bytes), reader) =>
      if small : bytes.length < 2 ^ 63 then runOn stack patience (next (some ⟨bytes, small⟩)) reader
      else (.panic, reader)
    | (.pending, reader) => (.pending, reader)
    | (.error error, reader) => (.error error, reader)
    | (.panic, reader) => (.panic, reader)
  | .reserve count size next, reader =>
    if 2 ^ 63 ≤ count * size then (.panic, reader)
    else runOn stack patience next { reader with requested := reader.requested ++ [.items count size] }
  | .nested depth next, reader =>
    if stack.any fun room => room < depth then (.panic, reader) else runOn stack patience next reader

/-- A deserialiser on a stack that has room for all its calls. -/
def run {α : Type} (patience : Nat) (read : Read α) (reader : NixReader R) : Poll α × NixReader R :=
  runOn none patience read reader

end Polls

/-! ## Agreement with the bytes -/

section Agreement

variable {R : Type} [AsyncBytesRead R] [LawfulBytesRead R]

/-- If a length comes next, the buffer may hold twice as much. -/
def Roomy (limit : Nat) (input : Bytes) : Prop :=
  ∀ rawLen rest, Read.tryReadNumber input = .ok (some rawLen) rest →
    2 * (calcAligned rawLen).toNat ≤ limit

omit [LawfulBytesRead R] [AsyncBytesRead R] in
/-- Eight bytes are a word. -/
theorem tryReadNumber_eight {word : Bytes} (eight : word.length = 8) (rest : Bytes) :
    Read.tryReadNumber (word ++ rest) = .ok (some (fromLeBytes word)) rest := by
  rw [← toLeBytes_fromLeBytes eight, Read.tryReadNumber_toLeBytes, fromLeBytes_toLeBytes]

/-- What polling for a string keeps. -/
structure Keeps (input : Bytes) (reader next : NixReader R) : Prop where
  /-- The bookkeeping. -/
  valid : view.Valid next.inner
  /-- Its regularity, if there is room for what is announced. -/
  regular : Roomy (view.limit reader.inner) input → view.Regular reader.inner →
    view.Regular next.inner
  /-- The limit of the buffer. -/
  limit : view.limit next.inner = view.limit reader.inner
  /-- The limit of strings. -/
  same : next.maxBufSize = reader.maxBufSize
  /-- The budget, which does not grow. -/
  spent : budget next.inner ≤ budget reader.inner
  /-- More room is asked for only as far as a string may need it. -/
  asked : ∃ rooms : List Nat, next.requested = reader.requested ++ rooms.map Room.buffer ∧
    ∀ room ∈ rooms, room ≤ reader.maxBufSize + 7

/-- Where polling for a string stands in the input. -/
inductive Stands (input : Bytes) : Stage → NixReader R → Prop
  | readLen {read : Bytes} {reader : NixReader R} (few : read.length < 8)
    (joined : input = read ++ view.unread reader.inner) : Stands input (.readLen read) reader
  | fill {rawLen : UInt64} {reader : NixReader R}
    (announced : Read.tryReadNumber input = .ok (some rawLen) (view.unread reader.inner))
    (within : rawLen.toNat ≤ reader.maxBufSize) (fits : rawLen.toNat + 7 < 2 ^ 64)
    (positive : 0 < (calcAligned rawLen).toNat) :
    Stands input (.fill rawLen.toNat (calcAligned rawLen).toNat) reader

/-- What polling for a string does. -/
inductive BytesPolled (ctx : Ctx) (input : Bytes) (reader : NixReader R) :
    Poll (Option Bytes) × (Stage × NixReader R) → Prop
  | ready {next : NixReader R} {stage : Stage} {contents : Option ByteString}
    (keeps : Keeps input reader next)
    (read : Read.tryReadBytes ctx input = .ok contents (view.unread next.inner)) :
    BytesPolled ctx input reader (.ready (contents.map ByteString.bytes), stage, next)
  | pending {next : NixReader R} {stage : Stage} (keeps : Keeps input reader next)
    (stands : Stands input stage next) (less : budget next.inner < budget reader.inner) :
    BytesPolled ctx input reader (.pending, stage, next)
  | error {next : NixReader R} {stage : Stage} {error : IoError} (keeps : Keeps input reader next)
    (why : Roomy (view.limit reader.inner) input → view.Regular reader.inner →
      ∃ error, Read.tryReadBytes ctx input = .error error) :
    BytesPolled ctx input reader (.error error, stage, next)

/-- What is kept adds up. -/
theorem Keeps.trans {input : Bytes} {first second third : NixReader R}
    (one : Keeps input first second) (two : Keeps input second third) : Keeps input first third := by
  obtain ⟨left, wroteLeft, boundLeft⟩ := one.asked
  obtain ⟨right, wroteRight, boundRight⟩ := two.asked
  refine ⟨two.valid, ?_, two.limit.trans one.limit, two.same.trans one.same,
    Nat.le_trans two.spent one.spent, left ++ right, ?_, ?_⟩
  · intro roomy regular
    exact two.regular (one.limit ▸ roomy) (one.regular roomy regular)
  · rw [wroteRight, wroteLeft, List.append_assoc, List.map_append]
  · intro room member
    rcases List.mem_append.mp member with before | after
    · exact boundLeft room before
    · rw [← one.same]
      exact boundRight room after

/-- A poll of what is below keeps what is above. -/
theorem Keeps.of_inner {input : Bytes} {reader : NixReader R} {inner : R} {taken : Bytes}
    (moved : Moved view reader.inner inner taken)
    (regular : Roomy (view.limit reader.inner) input → view.Regular reader.inner →
      view.Regular inner) :
    Keeps input reader { reader with inner := inner } := by
  have spent := moved.spent
  refine ⟨moved.valid, regular, moved.limit, rfl, ?_, [], ?_, List.forall_mem_nil _⟩
  · show budget inner ≤ budget reader.inner
    omega
  · exact (List.append_nil _).symm

/-- Polling goes on where a step has left it. -/
theorem BytesPolled.of_next {ctx : Ctx} {input : Bytes} {reader next : NixReader R}
    {result : Poll (Option Bytes) × (Stage × NixReader R)} (keeps : Keeps input reader next)
    (later : BytesPolled ctx input next result) : BytesPolled ctx input reader result := by
  have spent := keeps.spent
  cases later with
  | ready keeps' read => exact .ready (keeps.trans keeps') read
  | pending keeps' stands less => exact .pending (keeps.trans keeps') stands (by omega)
  | error keeps' why =>
    refine .error (keeps.trans keeps') fun roomy regular => ?_
    exact why (keeps.limit ▸ roomy) (keeps.regular roomy regular)

/-- The string that was announced, as far as it is there. -/
theorem tryReadBytes_announced {ctx : Ctx} {input rest : Bytes} {rawLen : UInt64}
    (announced : Read.tryReadNumber input = .ok (some rawLen) rest)
    (within : rawLen.toNat ≤ ctx.maxBufSize) (fits : rawLen.toNat + 7 < 2 ^ 64)
    (positive : 0 < (calcAligned rawLen).toNat) :
    Read.tryReadBytes ctx input =
      if rest.length < (calcAligned rawLen).toNat then .error BytesReader.forceEof
      else if (rest.take (calcAligned rawLen).toNat).drop rawLen.toNat ≠
          zeros.take ((calcAligned rawLen).toNat - rawLen.toNat) then
        .error (invalidData "non-zero padding")
      else .ok (some (Read.takeBytes ctx rest rawLen.toNat within))
        (rest.drop (calcAligned rawLen).toNat) := by
  rw [Read.tryReadBytes, announced]
  show Read.readContents ctx rawLen rest = _
  rw [Read.readContents]
  simp only [dif_pos within]
  rw [if_neg (by omega), if_neg (by omega)]

/-- Filling the buffer with what was announced. -/
theorem pollFill_polled {ctx : Ctx} {input : Bytes} {rawLen : UInt64} {reader : NixReader R}
    (valid : view.Valid reader.inner) (limits : ctx.maxBufSize = reader.maxBufSize)
    (announced : Read.tryReadNumber input = .ok (some rawLen) (view.unread reader.inner))
    (within : rawLen.toNat ≤ reader.maxBufSize) (fits : rawLen.toNat + 7 < 2 ^ 64)
    (positive : 0 < (calcAligned rawLen).toNat) :
    BytesPolled ctx input reader (pollFill rawLen.toNat (calcAligned rawLen).toNat reader) := by
  have read := tryReadBytes_announced announced (limits ▸ within) fits positive
  have grows : rawLen.toNat ≤ (calcAligned rawLen).toNat := by
    rw [calcAligned_fits (by unfold Fits; omega)]
    exact le_alignNat _
  unfold pollFill
  have filled := fills valid
  generalize pollFillBuf reader.inner = result at filled
  cases filled with
  | @ready shown kept regular same bounded ends =>
    have gathered := forceUntil_gathers (calcAligned rawLen).toNat (calcAligned rawLen).toNat
      kept.valid (Nat.le_add_left _ _)
    have moved := Moved.of_kept kept
    simp only
    generalize forceUntil (calcAligned rawLen).toNat (calcAligned rawLen).toNat shown
      (view.visible shown) = result at gathered
    cases gathered with
    | @ready next kept' regular' enough grown bounded' =>
      obtain ⟨after, took, valid', regular'', -, unread, -, limit, spent⟩ :=
        consumes_unread kept'.valid enough
      have same : view.unread next = view.unread reader.inner := kept'.unread.trans kept.unread
      have start : (view.visible next).take (calcAligned rawLen).toNat =
          (view.unread reader.inner).take (calcAligned rawLen).toNat := by
        rw [← same, View.unread, List.take_append_of_le_length enough]
      have length : (calcAligned rawLen).toNat ≤ (view.unread reader.inner).length := by
        rw [← same, View.unread, List.length_append]
        omega
      have all : Moved view reader.inner after
          ((view.unread reader.inner).take (calcAligned rawLen).toNat) := by
        have before := kept.budget
        have between := kept'.budget
        refine ⟨valid', ?_, limit.trans (kept'.limit.trans kept.limit), ?_⟩
        · rw [unread, same, List.take_append_drop]
        · rw [List.length_take]
          omega
      have keeps : Keeps input reader { reader with inner := after } :=
        .of_inner all fun _ => regular'' ∘ regular' ∘ regular
      rw [if_neg (by omega)] at read
      simp only [took, start]
      by_cases clean : ((view.unread reader.inner).take (calcAligned rawLen).toNat).drop rawLen.toNat ≠
          zeros.take ((calcAligned rawLen).toNat - rawLen.toNat)
      · rw [if_pos clean] at read ⊢
        exact .error keeps fun _ _ => ⟨_, read⟩
      · rw [if_neg clean] at read ⊢
        have left : view.unread after =
            (view.unread reader.inner).drop (calcAligned rawLen).toNat := by rw [unread, same]
        rw [← left] at read
        have found := @BytesPolled.ready R _ _ ctx input reader { reader with inner := after } .done _
          keeps read
        rw [Option.map_some] at found
        rw [List.take_take, Nat.min_eq_left grows]
        exact found
    | @pending next kept' regular' grown bounded' less =>
      have moved' := moved.trans (.of_kept kept')
      have spent := kept.budget
      refine .pending (.of_inner moved' fun _ => regular' ∘ regular) ?_ ?_
      · refine .fill ?_ within fits positive
        rw [announced]
        show Outcome.ok _ _ = Outcome.ok _ (view.unread next)
        rw [kept'.unread, kept.unread]
      · show budget next < budget reader.inner
        omega
    | @ended next error kept' regular' short kind =>
      have moved' := moved.trans (.of_kept kept')
      rw [kept.unread] at short
      rw [if_pos short] at read
      exact .error (.of_inner moved' fun _ => regular' ∘ regular) fun _ _ => ⟨_, read⟩
    | @refused next error kept' refuses large =>
      -- What is announced is more than half of what the buffer may hold.
      have never (roomy : Roomy (view.limit reader.inner) input)
          (ok : view.Regular reader.inner) : False := by
        have half := roomy rawLen _ announced
        have refused := large (regular ok)
        rw [kept.limit] at refused
        omega
      have moved' := moved.trans (.of_kept kept')
      exact .error (.of_inner moved' fun roomy ok => (never roomy ok).elim)
        fun roomy ok => (never roomy ok).elim
    | @error next error kept' irregular =>
      have never (ok : view.Regular reader.inner) : False := irregular (regular ok)
      have moved' := moved.trans (.of_kept kept')
      exact .error (.of_inner moved' fun _ ok => (never ok).elim) fun _ ok => (never ok).elim
  | @pending next kept regular same less =>
    refine .pending (.of_inner (.of_kept kept) fun _ => regular) ?_ less
    refine .fill ?_ within fits positive
    rw [announced]
    show Outcome.ok _ _ = Outcome.ok _ (view.unread next)
    rw [kept.unread]
  | @error next error kept same irregular =>
    exact .error (.of_inner (.of_kept kept) fun _ ok => absurd ok irregular)
      fun _ ok => absurd ok irregular

variable [AsyncPrepare R] [LawfulPrepare R]

/-- Making room for what was announced keeps what there is. -/
theorem Keeps.of_makeRoom {input rest : Bytes} {rawLen : UInt64} {reader : NixReader R}
    (valid : view.Valid reader.inner) (announced : Read.tryReadNumber input = .ok (some rawLen) rest)
    (within : rawLen.toNat ≤ reader.maxBufSize) (fits : rawLen.toNat + 7 < 2 ^ 64) :
    Keeps input reader (reader.makeRoom (calcAligned rawLen).toNat) := by
  have kept := LawfulPrepare.keeps (reader.held.headD true) (calcAligned rawLen).toNat valid
  refine ⟨kept.valid, ?_, kept.limit, rfl, kept.budget, [(calcAligned rawLen).toNat], rfl, ?_⟩
  · intro roomy regular
    exact LawfulPrepare.regular _ valid (roomy rawLen rest announced) regular
  · intro room member
    rw [List.mem_singleton.mp member, calcAligned_fits (by unfold Fits; omega), alignNat]
    omega

/-- Polling for a string. -/
theorem pollBytes_polled {ctx : Ctx} {input : Bytes} {stage : Stage} {reader : NixReader R}
    (valid : view.Valid reader.inner) (limits : ctx.maxBufSize = reader.maxBufSize)
    (stands : Stands input stage reader) :
    BytesPolled ctx input reader (pollBytes (stage, reader)) := by
  cases stands with
  | fill announced within fits positive =>
    exact pollFill_polled valid limits announced within fits positive
  | @readLen read _ few joined =>
    unfold pollBytes
    have polled := TryReadU64.pollReader_polled 8 valid (Nat.le_of_lt few) (Nat.le_add_left _ _)
    simp only
    generalize TryReadU64.pollReader 8 (read, reader.inner) = result at polled
    cases polled with
    | @ended next more moved regular nothing empty =>
      have past : input = [] := by
        rw [joined, moved.unread, empty, List.append_nil]
        exact nothing
      have found : Read.tryReadBytes ctx input = .ok none (view.unread next) := by
        rw [past, empty]
        rfl
      exact @BytesPolled.ready R _ _ ctx input reader { reader with inner := next } .done none
        (.of_inner moved fun _ => regular) found
    | @word next more moved regular eight =>
      have announced : Read.tryReadNumber input =
          .ok (some (fromLeBytes (read ++ more))) (view.unread next) := by
        rw [joined, moved.unread, ← List.append_assoc]
        exact tryReadNumber_eight eight _
      generalize fromLeBytes (read ++ more) = rawLen at announced ⊢
      have keeps : Keeps input reader { reader with inner := next } :=
        .of_inner moved fun _ => regular
      have flat : Read.tryReadBytes ctx input = Read.readContents ctx rawLen (view.unread next) := by
        rw [Read.tryReadBytes, announced]
      simp only
      by_cases long : reader.maxBufSize < rawLen.toNat
      · rw [if_pos long]
        refine .error keeps fun _ _ => ⟨invalidData "bytes length out of range", ?_⟩
        rw [flat, Read.readContents, dif_neg (by omega)]
      · rw [if_neg long]
        have within : rawLen.toNat ≤ ctx.maxBufSize := by omega
        by_cases wraps : 2 ^ 64 ≤ rawLen.toNat + 7
        · rw [if_pos wraps]
          refine .error keeps fun _ _ => ⟨invalidData "aligned bytes length out of range", ?_⟩
          rw [flat, Read.readContents, dif_pos within, if_pos wraps]
        · rw [if_neg wraps]
          by_cases positive : 0 < (calcAligned rawLen).toNat
          · rw [if_pos positive]
            have room : Keeps input { reader with inner := next } _ :=
              .of_makeRoom moved.valid announced (Nat.not_lt.mp long) (Nat.not_le.mp wraps)
            refine .of_next (keeps.trans room) (pollFill_polled room.valid limits ?_
              (Nat.not_lt.mp long) (Nat.not_le.mp wraps) positive)
            rw [announced]
            show Outcome.ok _ _ = Outcome.ok _ (view.unread (prepare next _ _))
            rw [(LawfulPrepare.keeps _ _ moved.valid).unread]
          · rw [if_neg positive]
            have found : Read.tryReadBytes ctx input =
                .ok (some ⟨[], by decide⟩) (view.unread next) := by
              rw [flat, Read.readContents, dif_pos within, if_neg wraps, if_pos (by omega)]
            exact @BytesPolled.ready R _ _ ctx input reader { reader with inner := next } .done
              (some ⟨[], by decide⟩) keeps found
    | @pending next more moved regular fewer less =>
      refine .pending (.of_inner moved fun _ => regular) (.readLen fewer ?_) less
      rw [joined, moved.unread, List.append_assoc]
    | @torn next more error moved regular began fewer empty =>
      have past : input = read ++ more := by
        rw [joined, moved.unread, empty, List.append_nil]
      refine .error (.of_inner moved fun _ => regular) fun _ _ =>
        ⟨⟨.unexpectedEof, "EOF reading u64"⟩, ?_⟩
      rw [Read.tryReadBytes, Read.tryReadNumber, past, if_neg began, if_pos fewer]
    | @failed next more error moved irregular =>
      exact .error (.of_inner moved fun _ ok => absurd ok irregular) fun _ ok => absurd ok irregular

/-- Awaiting a string: with enough patience it does not stay pending. -/
theorem await_polled {ctx : Ctx} {input : Bytes} {patience : Nat} {stage : Stage}
    {reader : NixReader R} (valid : view.Valid reader.inner)
    (limits : ctx.maxBufSize = reader.maxBufSize) (stands : Stands input stage reader)
    (patient : budget reader.inner < patience) :
    BytesPolled ctx input reader (await pollBytes patience (stage, reader)) ∧
      (await pollBytes patience (stage, reader)).1 ≠ .pending := by
  induction patience generalizing stage reader with
  | zero => cases patient
  | succ patience ih =>
    have polled := pollBytes_polled valid limits stands
    unfold await
    generalize pollBytes (stage, reader) = result at polled
    cases polled with
    | pending keeps stands less =>
      obtain ⟨later, answered⟩ := ih keeps.valid (limits.trans keeps.same.symm) stands (by omega)
      exact ⟨.of_next keeps later, answered⟩
    | ready keeps read => exact ⟨.ready keeps read, nofun⟩
    | error keeps why => exact ⟨.error keeps why, nofun⟩

/-- What awaiting a word or a string does, against what is in the bytes. -/
inductive Awaited {α β : Type} (seen : α → β) (flat : Outcome α) (input : Bytes)
    (reader : NixReader R) : Poll β × NixReader R → Prop
  | ready {next : NixReader R} {value : α} (keeps : Keeps input reader next)
    (read : flat = .ok value (view.unread next.inner)) :
    Awaited seen flat input reader (.ready (seen value), next)
  | error {next : NixReader R} {error : IoError} (keeps : Keeps input reader next)
    (why : Roomy (view.limit reader.inner) input → view.Regular reader.inner →
      ∃ error, flat = .error error) : Awaited seen flat input reader (.error error, next)

omit [AsyncPrepare R] [LawfulPrepare R] in
/-- Awaiting a word. -/
theorem tryReadNumber_awaited {patience : Nat} {reader : NixReader R}
    (valid : view.Valid reader.inner) (patient : budget reader.inner < patience) :
    Awaited id (Read.tryReadNumber (view.unread reader.inner)) [] reader
      (reader.tryReadNumber patience) := by
  have few : ([] : Bytes).length ≤ 8 := Nat.zero_le 8
  obtain ⟨polled, answered⟩ := TryReadU64.await_polled valid few patient
  unfold tryReadNumber
  generalize await (TryReadU64.pollReader 8) patience ([], reader.inner) = result at polled answered
  cases polled with
  | @ended next more moved regular nothing empty =>
    have past : view.unread reader.inner = [] := by
      rw [moved.unread, empty, List.append_nil]
      exact nothing
    refine .ready (.of_inner moved fun _ => regular) ?_
    show _ = Outcome.ok none (view.unread next)
    rw [past, empty]
    rfl
  | @word next more moved regular eight =>
    refine .ready (.of_inner moved fun _ => regular) ?_
    rw [moved.unread]
    exact tryReadNumber_eight eight _
  | pending => exact absurd rfl answered
  | @torn next more error moved regular began fewer empty =>
    have past : view.unread reader.inner = more := by rw [moved.unread, empty, List.append_nil]
    refine .error (.of_inner moved fun _ => regular) fun _ _ =>
      ⟨⟨.unexpectedEof, "EOF reading u64"⟩, ?_⟩
    rw [past, Read.tryReadNumber]
    exact (if_neg began).trans (if_pos fewer)
  | @failed next more error moved irregular =>
    exact .error (.of_inner moved fun _ ok => absurd ok irregular) fun _ ok => absurd ok irregular

/-- Awaiting a string. -/
theorem tryReadBytes_awaited {ctx : Ctx} {patience : Nat} {reader : NixReader R}
    (valid : view.Valid reader.inner) (limits : ctx.maxBufSize = reader.maxBufSize)
    (patient : budget reader.inner < patience) :
    Awaited (Option.map ByteString.bytes) (Read.tryReadBytes ctx (view.unread reader.inner))
      (view.unread reader.inner) reader (reader.tryReadBytes patience) := by
  have stands : Stands (view.unread reader.inner) (.readLen []) reader :=
    .readLen (by decide) rfl
  obtain ⟨polled, answered⟩ := await_polled valid limits stands patient
  unfold tryReadBytes
  generalize await pollBytes patience (.readLen [], reader) = result at polled answered
  cases polled with
  | ready keeps read => exact .ready keeps read
  | pending => exact absurd rfl answered
  | error keeps why => exact .error keeps why

/-- What a deserialiser that was told everything leaves behind. -/
structure Leaves (reader next : NixReader R) (rest : Bytes) : Prop where
  /-- The bookkeeping. -/
  valid : view.Valid next.inner
  /-- Its regularity. -/
  regular : view.Regular next.inner
  /-- What is left. -/
  unread : view.unread next.inner = rest
  /-- The limit of the buffer. -/
  limit : view.limit next.inner = view.limit reader.inner
  /-- The limit of strings. -/
  same : next.maxBufSize = reader.maxBufSize
  /-- The budget, which does not grow. -/
  spent : budget next.inner ≤ budget reader.inner

omit [AsyncPrepare R] [LawfulPrepare R] in
/-- What is left after one more step. -/
theorem Leaves.after {input rest : Bytes} {reader between next : NixReader R}
    (leaves : Leaves between next rest) (keeps : Keeps input reader between) :
    Leaves reader next rest :=
  ⟨leaves.valid, leaves.regular, leaves.unread, leaves.limit.trans keeps.limit,
    leaves.same.trans keeps.same, Nat.le_trans leaves.spent keeps.spent⟩

omit [LawfulBytesRead R] [AsyncBytesRead R] [AsyncPrepare R] [LawfulPrepare R] in
/-- A string that is within one limit is read under a larger one too. -/
theorem tryReadBytes_mono {ctx wide : Ctx} (wider : ctx.maxBufSize ≤ wide.maxBufSize)
    {input rest : Bytes} {contents : Option ByteString}
    (read : Read.tryReadBytes ctx input = .ok contents rest) :
    Read.tryReadBytes wide input = .ok contents rest := by
  unfold Read.tryReadBytes at read ⊢
  split at read
  case h_1 rawLen between _ =>
    unfold Read.readContents at read ⊢
    simp only at read ⊢
    split at read
    case isFalse => cases read
    case isTrue within =>
      rw [dif_pos (Nat.le_trans within wider)]
      exact read
  case h_2 =>
    cases read
    rfl
  case h_3 => cases read
  case h_4 => cases read

omit [LawfulBytesRead R] [AsyncBytesRead R] [AsyncPrepare R] [LawfulPrepare R] in
/-- There is room for a string that is within half of the limit. -/
theorem Roomy.of_read {ctx : Ctx} {limit : Nat} (half : 2 * alignNat ctx.maxBufSize ≤ limit)
    {input rest : Bytes} {contents : Option ByteString}
    (read : Read.tryReadBytes ctx input = .ok contents rest) : Roomy limit input := by
  intro rawLen between announced
  rw [Read.tryReadBytes, announced] at read
  simp only [Read.readContents] at read
  split at read
  case isFalse => cases read
  case isTrue within =>
    split at read
    case isTrue => cases read
    case isFalse fits =>
      rw [calcAligned_fits (by unfold Fits; omega)]
      have smaller : alignNat rawLen.toNat ≤ alignNat ctx.maxBufSize := by
        unfold alignNat
        omega
      omega

/-- What a deserialiser finds in the bytes it finds in any chunks of them, if there is room for
its strings. -/
theorem run_ready {α : Type} {ctx : Ctx} {patience : Nat} {read : Read α} {reader : NixReader R}
    {value : α} {rest : Bytes} (valid : view.Valid reader.inner) (regular : view.Regular reader.inner)
    (patient : budget reader.inner < patience) (within : ctx.maxBufSize ≤ reader.maxBufSize)
    (half : 2 * alignNat ctx.maxBufSize ≤ view.limit reader.inner)
    (ran : read.run ctx (view.unread reader.inner) = .ok value rest) :
    ∃ next, run patience read reader = (.ready value, next) ∧ Leaves reader next rest := by
  rw [run]
  induction read generalizing reader with
  | done value =>
    cases ran
    exact ⟨reader, rfl, valid, regular, rfl, rfl, rfl, Nat.le_refl _⟩
  | fail error => cases ran
  | reserve count size next ih =>
    rw [Read.run] at ran
    split at ran
    case isTrue => cases ran
    case isFalse fits =>
      rw [runOn, if_neg fits]
      obtain ⟨after, ran, leaves⟩ := @ih { reader with requested := reader.requested ++ [.items count size] }
        valid regular patient within half ran
      exact ⟨after, ran, leaves.valid, leaves.regular, leaves.unread, leaves.limit, leaves.same,
        leaves.spent⟩
  | nested depth next ih => exact ih valid regular patient within half ran
  | number next ih =>
    have awaited := tryReadNumber_awaited valid patient
    rw [Read.run] at ran
    rw [runOn]
    generalize reader.tryReadNumber patience = result at awaited
    cases awaited with
    | @ready between answer keeps read =>
      rw [read] at ran
      have spent := keeps.spent
      obtain ⟨after, ran, leaves⟩ := ih answer keeps.valid (keeps.regular nofun regular) (by omega)
        (keeps.same ▸ within) (keeps.limit ▸ half) ran
      exact ⟨after, ran, leaves.after keeps⟩
    | error keeps why =>
      obtain ⟨error, failed⟩ := why nofun regular
      rw [failed] at ran
      cases ran
  | bytes next ih =>
    let wide : Ctx := { ctx with maxBufSize := reader.maxBufSize, small := reader.small }
    have awaited := @tryReadBytes_awaited R _ _ _ _ wide _ _ valid rfl patient
    rw [Read.run] at ran
    rw [runOn]
    cases found : Read.tryReadBytes ctx (view.unread reader.inner) with
    | error error =>
      rw [found] at ran
      cases ran
    | panic =>
      rw [found] at ran
      cases ran
    | ok contents between =>
      rw [found] at ran
      have roomy := Roomy.of_read half found
      have flat := @tryReadBytes_mono ctx wide within _ _ _ found
      rw [flat] at awaited
      generalize reader.tryReadBytes patience = result at awaited
      cases awaited with
      | @ready following answer keeps read =>
        cases read
        have spent := keeps.spent
        obtain ⟨after, ran, leaves⟩ := ih contents keeps.valid (keeps.regular roomy regular) (by omega)
          (keeps.same ▸ within) (keeps.limit ▸ half) ran
        refine ⟨after, ?_, leaves.after keeps⟩
        cases contents with
        | none => exact ran
        | some contents =>
          show dite _ _ _ = _
          rw [dif_pos contents.small]
          exact ran
      | error keeps why =>
        obtain ⟨error, failed⟩ := why roomy regular
        cases failed

end Agreement

end NixReader

end Harmonia.Protocol
