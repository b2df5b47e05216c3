import Harmonia.Daemon.Calls
import Harmonia.Daemon.Server
import Harmonia.Io.Script
import Harmonia.Nar.Consumer
import Harmonia.Protocol.Display

/-!
# Many store paths in one body

`daemon_wire/add_multiple_to_store.rs`: a count, and then for each store path what is known of it and its
archive. Whoever receives them gets one after the other and reads as much of each archive as it likes; the
source is lent for each archive, and drained when it has come back and the next store path is asked for.
-/

namespace Harmonia.Daemon

open Library Store Protocol Nar

/-- `AddToStoreItem`. -/
structure AddToStoreItem (S : Type) where
  /-- `info`. -/
  info : ValidPathInfo
  /-- `reader`. -/
  reader : S

/-! ## Writing -/

section Writing

variable [DataEncoding] {S : Type}

/-- `write_value`: one call to the writer after the other, with the room in its buffer at each of them. -/
def writeValueSteps (room : Nat → Nat) : List Token → List (WriteStep S)
  | [] => []
  | token :: rest =>
    (if token.succeeds (room 0) then .put token.bytes else .stop NixWriter.unsupported) ::
      writeValueSteps (fun index => room (index + 1)) rest

/-- The error of a stream with more items than it said. -/
def moreItems (size : UInt64) : IoError := ⟨.other, s!"More than {size} items in stream"⟩

/-- The error of a stream with fewer items than it said. -/
def fewerItems (size : UInt64) (written : Nat) : IoError :=
  ⟨.other, s!"Not enough items in stream: Expected {size} got {written}"⟩

/-- The loop of `write_add_multiple_to_store_stream`, from an item on. -/
def itemSteps (ctx : Ctx) (room : Nat → Nat → Nat) (size : UInt64) :
    Nat → List (Except IoError (AddToStoreItem S)) → List (WriteStep S)
  | idx, [] => if idx = size.toNat then [] else [.stop (fewerItems size idx)]
  | idx, item :: rest =>
    if size.toNat ≤ idx then [.stop (moreItems size)]
    else
      match item with
      | .error error => [.stop error]
      | .ok item =>
        writeValueSteps (room idx) (serialize ctx item.info) ++
          .copy item.reader :: itemSteps ctx room size (idx + 1) rest

/-- `write_add_multiple_to_store_stream`, of a stream that says how many items it has. -/
def writeAddMultipleToStoreStream (ctx : Ctx) (room : Nat → Nat → Nat) (size : UInt64)
    (stream : List (Except IoError (AddToStoreItem S))) : List (WriteStep S) :=
  .put (toLeBytes size) :: itemSteps ctx room size 0 stream

/-- What is written of store paths and their archives. -/
def encodeItems (ctx : Ctx) (items : List (ValidPathInfo × Bytes)) : Bytes :=
  items.flatMap fun item => encode (serialize ctx item.1) ++ item.2

/-- What is written of a stream of them. -/
def encodeStream (ctx : Ctx) (items : List (ValidPathInfo × Bytes)) : Bytes :=
  toLeBytes (UInt64.ofNat items.length) ++ encodeItems ctx items

variable [AsyncBufRead S] [LawfulBufRead S]

/-- What is known of the store path, and what its reader has to give. -/
def AddToStoreItem.content (item : AddToStoreItem S) : ValidPathInfo × Bytes :=
  (item.info, view.unread item.reader)

/-- A value that can be written, and the steps behind it. -/
theorem writing_value {room : Nat → Nat} {tokens : List Token} {value bytes : Bytes}
    {steps : List (WriteStep S)} (later : WriteStep.Writing bytes steps)
    (writes : write room tokens = some value) : WriteStep.Writing (value ++ bytes) (writeValueSteps room tokens ++ steps) := by
  induction tokens generalizing room value with
  | nil =>
    cases writes
    exact later
  | cons token tokens ih =>
    rw [write] at writes
    split at writes
    case isTrue succeeds =>
      obtain ⟨more, behind, rfl⟩ := Option.map_eq_some_iff.mp writes
      rw [writeValueSteps, if_pos succeeds, List.cons_append, List.append_assoc]
      exact (ih behind).cons (.put token.bytes) trivial trivial
    case isFalse => cases writes

/-- Items that can be written: there is room for the texts of each, and the reader of its archive does not
fail. -/
structure Sendable (ctx : Ctx) (room : Nat → Nat → Nat) (items : List (AddToStoreItem S)) : Prop where
  /-- They can be counted. -/
  few : items.length < 2 ^ 64
  /-- What is known of each store path can be written. -/
  fits : ∀ (idx : Nat) (item : AddToStoreItem S), items[idx]? = some item →
    ∃ bytes, write (room idx) (serialize ctx item.info) = some bytes
  /-- The readers are sound. -/
  valid : ∀ item ∈ items, view.Valid item.reader
  /-- The readers do not fail. -/
  regular : ∀ item ∈ items, view.Regular item.reader

/-- The loop writes the items that are left. -/
theorem writing_itemSteps {ctx : Ctx} {room : Nat → Nat → Nat} {size : UInt64} {idx : Nat}
    {items : List (AddToStoreItem S)} (counted : idx + items.length = size.toNat)
    (fits : ∀ (more : Nat) (item : AddToStoreItem S), items[more]? = some item →
      ∃ bytes, write (room (idx + more)) (serialize ctx item.info) = some bytes)
    (valid : ∀ item ∈ items, view.Valid item.reader) (regular : ∀ item ∈ items, view.Regular item.reader) :
    WriteStep.Writing (encodeItems ctx (items.map AddToStoreItem.content))
      (itemSteps ctx room size idx (items.map .ok)) := by
  induction items generalizing idx with
  | nil =>
    have last : idx = size.toNat := counted
    rw [List.map_nil, List.map_nil, itemSteps, if_pos last]
    exact .nil
  | cons item items ih =>
    rw [List.length_cons] at counted
    obtain ⟨bytes, writes⟩ := fits 0 item rfl
    obtain ⟨sound, others⟩ := List.forall_mem_cons.mp valid
    obtain ⟨calm, calmer⟩ := List.forall_mem_cons.mp regular
    have later := @ih (idx + 1) (by omega) (fun more item listed => by
      obtain ⟨bytes, writes⟩ := fits (more + 1) item listed
      exact ⟨bytes, by rw [Nat.add_assoc, Nat.add_comm 1, writes]⟩) others calmer
    have joins : encodeItems ctx ((item :: items).map AddToStoreItem.content) =
        bytes ++ (view.unread item.reader ++ encodeItems ctx (items.map AddToStoreItem.content)) := by
      rw [(write_some writes).1, List.map_cons, encodeItems, List.flatMap_cons, List.append_assoc]
      rfl
    rw [joins, List.map_cons, itemSteps, if_neg (by omega)]
    exact writing_value (later.cons (.copy item.reader) sound calm) writes

/-- The stream is written: the count, and then each item. -/
theorem Sendable.writing {ctx : Ctx} {room : Nat → Nat → Nat} {items : List (AddToStoreItem S)}
    (sendable : Sendable ctx room items) :
    WriteStep.Writing (encodeStream ctx (items.map AddToStoreItem.content))
      (writeAddMultipleToStoreStream ctx room (UInt64.ofNat items.length) (items.map .ok)) := by
  have counted : 0 + items.length = (UInt64.ofNat items.length).toNat := by
    rw [Nat.zero_add, UInt64.toNat_ofNat', Nat.mod_eq_of_lt sendable.few]
  have later := @writing_itemSteps _ S _ _ ctx room _ 0 items counted (fun more item listed => by
    rw [Nat.zero_add]
    exact sendable.fits more item listed) sendable.valid sendable.regular
  rw [encodeStream, List.length_map, writeAddMultipleToStoreStream]
  exact later.cons (.put _) trivial trivial

end Writing

/-! ## Reading -/

/-- The reader of a loan, wherever it is. -/
def Loan.home {R : Type} (this : Loan R) : Option R :=
  match this.lending, this.lent with
  | .available reader, _ => some reader
  | .drain nar, _ | .lent (some nar), _ => some nar.reader
  | .lent none, some ⟨some nar, _⟩ => some nar.reader
  | .lent none, _ => none

/-- Read what is left of an archive, as it comes; `none` is a failure, a panic or impatience. -/
def Loan.readRest {R : Type} [AsyncBufRead R] : Nat → Bytes → Loan R → Option (Bytes × Loan R)
  | 0, _, _ => none
  | patience + 1, read, this =>
    match this.fill with
    | (.ready buf, this) =>
      if buf = [] then some (read, this)
      else
        match this.take buf.length with
        | some this => readRest patience (read ++ buf) this
        | none => none
    | (.pending, this) => readRest patience read this
    | (.error _, _) | (.panic, _) => none

/-- Read an archive by bites, and then to its end or not at all. -/
def Loan.readItem {R : Type} [AsyncBufRead R] (patience : Nat) (appetite : Appetite) (this : Loan R) :
    Option (Served × Loan R) :=
  match this.readSome appetite.bites [] with
  | some (read, this) =>
    if appetite.finish then (this.readRest patience read).map fun (all, this) => (⟨all, true⟩, this)
    else some (⟨read, false⟩, this)
  | none => none

section Reading

variable [Layout] [DataEncoding] {R : Type}

/-- The stream of `parse_add_multiple_to_store`. -/
structure ItemStream (R : Type) where
  /-- `idx`. -/
  idx : Nat
  /-- `count`. -/
  count : Nat
  /-- `source`: a reader that is lent as that of a client is. -/
  source : DaemonClient R

variable [AsyncBytesRead R] [AsyncPrepare R]

/-- `parse_add_multiple_to_store`. -/
def parseAddMultipleToStore (ctx : Ctx) (patience : Nat) (source : NixReader R) : Poll (ItemStream R) :=
  match NixReader.run patience (readValue UInt64 ctx) source with
  | (.ready count, source) =>
    .ready ⟨0, count.toNat, ⟨⟨⟨.available source.inner, none⟩, source.maxBufSize, source.small, source.held,
      source.requested⟩⟩⟩
  | (.pending, _) => .pending
  | (.error error, _) => .error error
  | (.panic, _) => .panic

namespace ItemStream

/-- `next`: what is known of the next store path. The source is then lent for its archive. After an error the
stream is over. -/
def next (ctx : Ctx) (patience : Nat) (this : ItemStream R) : Poll (Option ValidPathInfo) × ItemStream R :=
  if this.idx < this.count then
    match this.source.getReader patience with
    | (.ready reader, source) =>
      match NixReader.run patience (readValue ValidPathInfo ctx) reader with
      | (.ready info, reader) =>
        match (source.withReader reader).reader.inner.lend with
        | some (nar, loan) =>
          (.ready (some info), { this with
            idx := this.idx + 1,
            source := (source.withReader reader).withLoan { loan with lent := some ⟨some nar, []⟩ } })
        | none => (.panic, this)
      | (.error error, reader) =>
        (.error error, { this with idx := this.count, source := source.withReader reader })
      | (.pending, reader) => (.pending, { this with source := source.withReader reader })
      | (.panic, reader) => (.panic, { this with source := source.withReader reader })
    | (.error error, source) => (.error error, { this with idx := this.count, source := source })
    | (.pending, source) => (.pending, { this with source := source })
    | (.panic, source) => (.panic, { this with source := source })
  else (.ready none, this)

/-- Ask for one item after the other. Of each archive some is read, or all of it, and its reader is dropped
before the next item is asked for. `none` is a failure, a panic or impatience. -/
def receive (ctx : Ctx) (patience : Nat) : Nat → List Appetite → List (ValidPathInfo × Served) → ItemStream R →
    Option (List (ValidPathInfo × Served) × ItemStream R)
  | 0, _, _, _ => none
  | rounds + 1, appetites, items, this =>
    match this.next ctx patience with
    | (.ready none, this) => some (items, this)
    | (.ready (some info), this) =>
      match this.source.reader.inner.readItem patience (appetites.headD default) with
      | some (served, loan) =>
        receive ctx patience rounds appetites.tail (items ++ [(info, served)])
          { this with source := this.source.withLoan loan.dropLent }
      | none => none
    | (.error _, _) | (.pending, _) | (.panic, _) => none

end ItemStream

/-! ## Archives on loan -/

namespace Loan

variable [LawfulBytesRead R]

omit [Layout] [DataEncoding] [AsyncPrepare R]

/-- Someone holds an archive of which some was taken, or has sent it back at its end. -/
inductive Inside (archive rest taken : Bytes) (limit cap : Nat) (this : Loan R) : Prop
  | out {nar : NarReader R} {buffer : Bytes} (away : this.lending = .lent none)
    (lent : this.lent = some ⟨some nar, buffer⟩) (passes : Passes archive rest taken limit cap nar)
    (shown : buffer ≠ [] → nar.Tracks (archive ++ rest) taken ∧ buffer = shownBy nar)
  | back {nar : NarReader R} (whole : taken = archive) (sent : this.lending = .lent (some nar))
    (lent : this.lent = some ⟨none, []⟩) (passes : Passes archive rest taken limit cap nar)

/-- A larger budget does no harm. -/
theorem Inside.weaken {archive rest taken : Bytes} {limit cap more : Nat} {this : Loan R}
    (inside : this.Inside archive rest taken limit cap) (grows : cap ≤ more) :
    this.Inside archive rest taken limit more := by
  cases inside with
  | out away lent passes shown => exact .out away lent (passes.weaken grows) shown
  | back whole sent lent passes => exact .back whole sent lent (passes.weaken grows)

/-- What filling the buffer of an archive that someone holds does. -/
inductive Shows (archive rest taken : Bytes) (limit cap : Nat) : Poll Bytes × Loan R → Prop
  | shown {next : Loan R} {nar : NarReader R} (away : next.lending = .lent none)
    (lent : next.lent = some ⟨some nar, shownBy nar⟩) (passes : Passes archive rest taken limit cap nar)
    (tracks : nar.Tracks (archive ++ rest) taken) (nonempty : shownBy nar ≠ []) :
    Shows archive rest taken limit cap (.ready (shownBy nar), next)
  | ended {next : Loan R} (whole : taken = archive) (inside : next.Inside archive rest taken limit cap) :
    Shows archive rest taken limit cap (.ready [], next)
  | pending {next : Loan R} {less : Nat} (inside : next.Inside archive rest taken limit less)
    (fewer : less < cap) : Shows archive rest taken limit cap (.pending, next)

/-- Filling the buffer of an archive that someone holds. -/
theorem Inside.shows {archive rest taken : Bytes} {limit cap : Nat} {this : Loan R}
    (inside : this.Inside archive rest taken limit cap) : Shows archive rest taken limit cap this.fill := by
  unfold fill
  cases inside with
  | @out nar buffer away lent passes shown =>
    rw [lent]
    by_cases some : buffer ≠ []
    · obtain ⟨tracks, rfl⟩ := shown some
      simp only [if_pos some]
      exact .shown away lent passes tracks some
    · simp only [if_neg some]
      have passed := passes.passed
      generalize pollFillBuf nar = result at passed
      cases passed with
      | @shown next now tracks nonempty =>
        simp only [if_neg nonempty]
        exact .shown away rfl now tracks nonempty
      | @ended next now whole before => exact .ended whole (.back whole rfl rfl now)
      | @pending next less now fewer =>
        exact .pending (.out away rfl now fun some => absurd rfl some) fewer
  | back whole sent lent passes =>
    rw [lent]
    exact .ended whole (.back whole sent lent passes)

/-- Taking what is shown. -/
theorem taken_inside {archive rest taken : Bytes} {limit cap amt : Nat} {this : Loan R} {nar : NarReader R}
    (away : this.lending = .lent none) (lent : this.lent = some ⟨some nar, shownBy nar⟩)
    (passes : Passes archive rest taken limit cap nar) (tracks : nar.Tracks (archive ++ rest) taken)
    (within : amt ≤ (shownBy nar).length) :
    ∃ next less, this.take amt = some next ∧
      next.Inside archive rest (taken ++ (shownBy nar).take amt) limit less ∧ less + amt ≤ cap := by
  obtain ⟨next, less, took, later, tracking, left, cost⟩ := passes.consumed tracks within
  refine ⟨{ this with lent := some ⟨some next, (shownBy nar).drop amt⟩ }, less, ?_, ?_, cost⟩
  · rw [take, lent]
    simp only [if_neg (Nat.not_lt.mpr within), took, Option.map_some]
  · exact .out away rfl later fun _ => ⟨tracking, left.symm⟩

/-- Reading from an archive that someone holds. -/
theorem Inside.readSome {archive rest taken : Bytes} {limit cap : Nat} {this : Loan R}
    (inside : this.Inside archive rest taken limit cap) (begun : taken <+: archive) (rooms : List Nat)
    (read : Bytes) :
    ∃ more next, Loan.readSome rooms read this = some (read ++ more, next) ∧
      taken ++ more <+: archive ∧ next.Inside archive rest (taken ++ more) limit cap := by
  induction rooms generalizing this taken read with
  | nil =>
    refine ⟨[], this, ?_, ?_, ?_⟩
    · rw [List.append_nil, Loan.readSome]
    · rwa [List.append_nil]
    · rwa [List.append_nil]
  | cons room rooms ih =>
    have shows := inside.shows
    unfold Loan.readSome
    generalize this.fill = result at shows
    cases shows with
    | @shown next nar away lent passes tracks nonempty =>
      simp only [if_neg nonempty]
      obtain ⟨after, less, took, inside, cost⟩ :=
        taken_inside away lent passes tracks (Nat.min_le_left (shownBy nar).length room)
      have starts : taken ++ (shownBy nar).take (min (shownBy nar).length room) <+: archive :=
        ((List.prefix_append_right_inj _).mpr (List.take_prefix _ _)).trans (passes.starts tracks)
      obtain ⟨more, last, reads, within, inside⟩ := ih (inside.weaken (by omega)) starts
        (read ++ (shownBy nar).take (min (shownBy nar).length room))
      refine ⟨(shownBy nar).take (min (shownBy nar).length room) ++ more, last, ?_, ?_, ?_⟩
      · simp only [took]
        rw [reads, List.append_assoc]
      · rwa [← List.append_assoc]
      · rwa [← List.append_assoc]
    | ended whole inside => exact ih inside begun read
    | pending inside fewer => exact ih (inside.weaken (Nat.le_of_lt fewer)) begun read

/-- Reading what is left of an archive. -/
theorem Inside.readRest {archive rest taken : Bytes} {limit cap patience : Nat} {this : Loan R}
    (inside : this.Inside archive rest taken limit cap) (patient : cap < patience) (read : Bytes) :
    ∃ more next, Loan.readRest patience read this = some (read ++ more, next) ∧
      taken ++ more = archive ∧ next.Inside archive rest archive limit cap := by
  induction patience generalizing this taken cap read with
  | zero => cases patient
  | succ patience ih =>
    have shows := inside.shows
    unfold Loan.readRest
    generalize this.fill = result at shows
    cases shows with
    | @shown next nar away lent passes tracks nonempty =>
      have positive := List.length_pos_of_ne_nil nonempty
      obtain ⟨after, less, took, inside, cost⟩ :=
        taken_inside away lent passes tracks (Nat.le_refl (shownBy nar).length)
      rw [List.take_length] at inside
      obtain ⟨more, last, reads, whole, inside⟩ := ih inside (by omega) (read ++ shownBy nar)
      refine ⟨shownBy nar ++ more, last, ?_, ?_, inside.weaken (by omega)⟩
      · simp only [if_neg nonempty, took]
        rw [reads, List.append_assoc]
      · rwa [← List.append_assoc]
    | @ended next whole inside =>
      subst whole
      refine ⟨[], next, ?_, List.append_nil _, inside⟩
      simp only [if_true, List.append_nil]
    | pending inside fewer =>
      obtain ⟨more, last, reads, whole, inside⟩ := ih inside (by omega) read
      exact ⟨more, last, reads, whole, inside.weaken (Nat.le_of_lt fewer)⟩

/-- Reading an archive as far as someone likes. -/
theorem Inside.readItem {archive rest : Bytes} {limit cap patience : Nat} {this : Loan R}
    (inside : this.Inside archive rest [] limit cap) (patient : cap < patience) (appetite : Appetite) :
    ∃ served next, this.readItem patience appetite = some (served, next) ∧ served.bytes <+: archive ∧
      (served.ended = true → served.bytes = archive) ∧ (appetite.finish = true → served.ended = true) ∧
      next.Inside archive rest served.bytes limit cap := by
  obtain ⟨read, middle, reads, starts, inside⟩ := inside.readSome List.nil_prefix appetite.bites []
  rw [List.nil_append] at reads starts inside
  rw [Loan.readItem, reads]
  cases appetite.finish with
  | true =>
    obtain ⟨more, last, done, whole, inside⟩ := inside.readRest patient read
    refine ⟨⟨archive, true⟩, last, ?_, List.prefix_refl _, fun _ => rfl, fun _ => rfl, inside⟩
    rw [← whole]
    simp only [if_true, done, Option.map_some]
  | false =>
    refine ⟨⟨read, false⟩, middle, rfl, starts, ?_, ?_, inside⟩
    · intro none
      cases none
    · intro none
      cases none

/-- Dropping the reader of an archive; if all of it was taken, the source stands behind it at once. -/
theorem Inside.dropped {archive rest taken : Bytes} {limit cap : Nat} {this : Loan R}
    (inside : this.Inside archive rest taken limit cap) :
    this.dropLent.Stands rest limit cap ∧
      (taken = archive → ∃ reader, this.dropLent.home = some reader ∧ view.unread reader = rest) := by
  have released (this : Loan R) : Released { this with lent := none } := by
    rintro lent ⟨⟩
  have behind {nar : NarReader R} (passes : Passes archive rest taken limit cap nar) (whole : taken = archive) :
      view.unread nar.reader = rest := by
    have joined := passes.follows.joined
    rw [whole] at joined
    exact (List.append_cancel_left joined).symm
  cases inside with
  | @out nar buffer away lent passes shown =>
    rw [dropLent, lent]
    exact ⟨⟨.lent passes, released _⟩, fun whole => ⟨nar.reader, rfl, behind passes whole⟩⟩
  | @back nar whole sent lent passes =>
    rw [dropLent, lent]
    refine ⟨⟨sent ▸ .lent passes, released _⟩, fun whole => ⟨nar.reader, ?_, behind passes whole⟩⟩
    rw [home, sent]

end Loan

/-! ## In step -/

/-- What someone with these appetites gets of store paths and their archives: each of them in its turn, with
the beginning of its archive or all of it. -/
inductive Receives : List Appetite → List (ValidPathInfo × Bytes) → List (ValidPathInfo × Served) → Prop
  | nil {appetites : List Appetite} : Receives appetites [] []
  | item {appetites : List Appetite} {info : ValidPathInfo} {archive : Bytes} {served : Served}
    {items : List (ValidPathInfo × Bytes)} {got : List (ValidPathInfo × Served)}
    (starts : served.bytes <+: archive) (whole : served.ended = true → served.bytes = archive)
    (finishes : (appetites.headD default).finish = true → served.ended = true)
    (later : Receives appetites.tail items got) :
    Receives appetites ((info, archive) :: items) ((info, served) :: got)

/-- All of the last archive was read. -/
def LastDrained (items : List (ValidPathInfo × Bytes)) (got : List (ValidPathInfo × Served)) : Prop :=
  ∀ item entry, items.getLast? = some item → got.getLast? = some entry → entry.2.bytes = item.2

omit [Layout] [DataEncoding] in
/-- The last archive is that of the others, if there are others. -/
theorem LastDrained.tail {item : ValidPathInfo × Bytes} {entry : ValidPathInfo × Served}
    {items : List (ValidPathInfo × Bytes)} {got : List (ValidPathInfo × Served)}
    (drained : LastDrained (item :: items) (entry :: got)) : LastDrained items got := by
  intro last bytes isLast isEntry
  apply drained last bytes
  · rw [List.getLast?_cons, isLast]
    rfl
  · rw [List.getLast?_cons, isEntry]
    rfl

namespace ItemStream

variable [LawfulBytesRead R]

/-- The source is at the first of these bytes. -/
def AtRest (this : ItemStream R) (rest : Bytes) : Prop :=
  ∃ reader, this.source.reader.inner.home = some reader ∧ view.unread reader = rest

/-- A stream whose item is being read. -/
structure Serving (ctx : Ctx) (patience : Nat) (archive rest : Bytes) (this : ItemStream R) : Prop where
  /-- Its archive was lent. -/
  loan : ∃ limit cap, this.source.reader.inner.Inside archive rest [] limit cap ∧ cap < patience ∧
    2 * alignNat ctx.maxBufSize ≤ limit
  /-- Texts are within the limit of strings. -/
  within : ctx.maxBufSize ≤ this.source.reader.maxBufSize

variable [LawfulPrepare R]

omit [Layout] in
/-- The next item, if one is there. -/
theorem next_item {ctx : Ctx} {patience : Nat} {this : ItemStream R} {info : ValidPathInfo}
    {archive rest : Bytes}
    (stands : this.source.Stands ctx patience (encode (serialize ctx info) ++ (archive ++ rest)))
    (left : this.idx < this.count) (carried : Carried ctx info) (is : DaemonClient.Archive archive) :
    ∃ last, this.next ctx patience = (.ready (some info), last) ∧ last.idx = this.idx + 1 ∧
      last.count = this.count ∧ last.Serving ctx patience archive rest := by
  obtain ⟨reader, mid, ready, fit, unread, released⟩ := stands.getReader
  obtain ⟨after, ran, leaves⟩ := NixReader.run_ready fit.valid fit.regular fit.patient fit.within fit.half
    (show (readValue ValidPathInfo ctx).run ctx (view.unread reader.inner) = .ok info (archive ++ rest) by
      rw [unread]
      exact run_readValue carried _)
  have now := fit.leaves leaves
  have before : Before (archive ++ rest) (view.limit after.inner) (budget after.inner) after.inner :=
    ⟨leaves.valid, leaves.regular, leaves.unread, rfl, Nat.le_refl _⟩
  refine ⟨{ this with
      idx := this.idx + 1,
      source := (mid.withReader after).withLoan ⟨.lent none, some ⟨some (.new after.inner), []⟩⟩ },
    ?_, rfl, rfl, ⟨_, _, ?_, now.patient, now.half⟩, now.within⟩
  · rw [next, if_pos left]
    simp only [ready, ran]
    rfl
  · exact .out rfl rfl (before.passes (is.ends rest)) fun some => absurd rfl some

omit [Layout] [DataEncoding] [AsyncPrepare R] [LawfulPrepare R] in
/-- However much of an item is read, the stream then stands behind it, and is there at once if all of it was
read. -/
theorem Serving.readItem {ctx : Ctx} {patience : Nat} {archive rest : Bytes} {this : ItemStream R}
    (serving : this.Serving ctx patience archive rest) (appetite : Appetite) :
    ∃ served loan, this.source.reader.inner.readItem patience appetite = some (served, loan) ∧
      served.bytes <+: archive ∧ (served.ended = true → served.bytes = archive) ∧
      (appetite.finish = true → served.ended = true) ∧
      (this.source.withLoan loan.dropLent).Stands ctx patience rest ∧
      (served.bytes = archive → AtRest { this with source := this.source.withLoan loan.dropLent } rest) := by
  obtain ⟨⟨limit, cap, inside, patient, half⟩, within⟩ := serving
  obtain ⟨served, loan, read, starts, whole, finishes, inside⟩ := inside.readItem patient appetite
  obtain ⟨stands, rests⟩ := inside.dropped
  exact ⟨served, loan, read, starts, whole, finishes, ⟨⟨limit, cap, stands, patient, half⟩, within⟩, rests⟩

omit [Layout] in
/-- Items that are there are received one after the other. If there are none, the stream stays where it is. -/
theorem receive_items {ctx : Ctx} {patience rounds : Nat} {appetites : List Appetite}
    {items : List (ValidPathInfo × Bytes)} {before : List (ValidPathInfo × Served)} {this : ItemStream R}
    {rest : Bytes} (stands : this.source.Stands ctx patience (encodeItems ctx items ++ rest))
    (counted : this.idx + items.length = this.count) (enough : items.length < rounds)
    (carried : ∀ item ∈ items, Carried ctx item.1 ∧ DaemonClient.Archive item.2) :
    ∃ got last, receive ctx patience rounds appetites before this = some (before ++ got, last) ∧
      Receives appetites items got ∧ last.source.Stands ctx patience rest ∧
      (LastDrained items got → (items = [] → this.AtRest rest) → last.AtRest rest) := by
  induction items generalizing rounds appetites before this with
  | nil =>
    cases rounds with
    | zero => cases enough
    | succ rounds =>
      have passed : ¬this.idx < this.count := by
        rw [← counted]
        exact Nat.lt_irrefl _
      refine ⟨[], this, ?_, .nil, stands, fun _ rests => rests rfl⟩
      rw [receive, next, if_neg passed, List.append_nil]
  | cons item items ih =>
    obtain ⟨info, archive⟩ := item
    cases rounds with
    | zero => cases enough
    | succ rounds =>
      rw [List.length_cons] at counted enough
      obtain ⟨⟨wire, is⟩, others⟩ := List.forall_mem_cons.mp carried
      have splits : encodeItems ctx ((info, archive) :: items) ++ rest =
          encode (serialize ctx info) ++ (archive ++ (encodeItems ctx items ++ rest)) := by
        rw [encodeItems, List.flatMap_cons, List.append_assoc, List.append_assoc]
        rfl
      rw [splits] at stands
      obtain ⟨middle, asked, index, same, serving⟩ := next_item stands (by omega) wire is
      obtain ⟨served, loan, read, starts, whole, finishes, stands, there⟩ :=
        serving.readItem (appetites.headD default)
      obtain ⟨got, last, received, receives, stands, atRest⟩ :=
        @ih rounds appetites.tail (before ++ [(info, served)])
          { middle with source := middle.source.withLoan loan.dropLent } stands
          (show middle.idx + items.length = middle.count by omega) (by omega) others
      refine ⟨(info, served) :: got, last, ?_, .item starts whole finishes receives, stands, ?_⟩
      · rw [receive, asked]
        simp only [read]
        rw [received, List.append_assoc]
        rfl
      · intro drained _
        apply atRest drained.tail
        intro none
        subst none
        cases receives
        exact there (drained _ _ rfl rfl)

end ItemStream

omit [Layout] in
/-- A count that is there is read, and the stream then stands before its items. -/
theorem parseAddMultipleToStore_ready [LawfulBytesRead R] [LawfulPrepare R] {ctx : Ctx} {patience : Nat}
    {source : NixReader R} {count : UInt64} {rest : Bytes} (fit : ProcessStderr.Fit ctx patience source)
    (arrives : view.unread source.inner = toLeBytes count ++ rest) :
    ∃ stream, parseAddMultipleToStore ctx patience source = .ready stream ∧ stream.idx = 0 ∧
      stream.count = count.toNat ∧ stream.source.Stands ctx patience rest ∧ stream.AtRest rest := by
  obtain ⟨after, ran, leaves⟩ := NixReader.run_ready fit.valid fit.regular fit.patient fit.within fit.half
    (show (readValue UInt64 ctx).run ctx (view.unread source.inner) = .ok count rest by
      have word : toLeBytes count = encode (serialize ctx count) := (encode_singleton (.number count)).symm
      rw [arrives, word]
      exact run_readValue trivial rest)
  have now := fit.leaves leaves
  have before : Before rest (view.limit after.inner) (budget after.inner) after.inner :=
    ⟨leaves.valid, leaves.regular, leaves.unread, rfl, Nat.le_refl _⟩
  have released : Loan.Released (⟨.available after.inner, none⟩ : Loan R) := by
    rintro lent ⟨⟩
  refine ⟨_, by rw [parseAddMultipleToStore, ran], rfl, rfl,
    ⟨⟨_, _, ⟨.available before, released⟩, now.patient, now.half⟩, now.within⟩, after.inner, rfl,
    leaves.unread⟩

omit [Layout] in
/-- Whatever was encoded is received as the same store paths in the same order, and the source is then where
it should be. -/
theorem received_encodeStream [LawfulBytesRead R] [LawfulPrepare R] {ctx : Ctx} {patience rounds : Nat}
    {source : NixReader R} {items : List (ValidPathInfo × Bytes)} {rest : Bytes} (appetites : List Appetite)
    (fit : ProcessStderr.Fit ctx patience source)
    (arrives : view.unread source.inner = encodeStream ctx items ++ rest) (few : items.length < 2 ^ 64)
    (carried : ∀ item ∈ items, Carried ctx item.1 ∧ DaemonClient.Archive item.2)
    (enough : items.length < rounds) :
    ∃ stream got last, parseAddMultipleToStore ctx patience source = .ready stream ∧
      stream.receive ctx patience rounds appetites [] = some (got, last) ∧ Receives appetites items got ∧
      (LastDrained items got → last.AtRest rest) := by
  rw [encodeStream, List.append_assoc] at arrives
  obtain ⟨stream, parsed, start, counted, stands, rests⟩ := parseAddMultipleToStore_ready fit arrives
  have all : stream.idx + items.length = stream.count := by
    rw [start, counted, UInt64.toNat_ofNat', Nat.mod_eq_of_lt few, Nat.zero_add]
  obtain ⟨got, last, received, receives, -, atRest⟩ := @ItemStream.receive_items _ R _ _ _ _ ctx patience
    rounds appetites items [] stream rest stands all enough carried
  refine ⟨stream, got, last, parsed, received, receives, fun drained => atRest drained ?_⟩
  intro none
  rw [none] at rests
  exact rests

omit [Layout] in
/-- Whatever is written of store paths is received as the same store paths in the same order, however much of
each archive is read; and once the last archive was read to its end, the source stands behind what was
written. -/
theorem addMultiple_in_step [LawfulBytesRead R] [LawfulPrepare R] {S W : Type} [AsyncBufRead S]
    [LawfulBufRead S] [AsyncWrite W] [SteadyWrite W] [PatientWrite W] [LawfulPatience W] {ctx : Ctx}
    {room : Nat → Nat → Nat} {items : List (AddToStoreItem S)} {writer : W} {polls : Nat}
    (sendable : Sendable ctx room items)
    (carried : ∀ item ∈ items, Carried ctx item.info ∧ DaemonClient.Archive (view.unread item.reader))
    (steady : Steady writer)
    (patient : WriteStep.sizes (writeAddMultipleToStoreStream ctx room (UInt64.ofNat items.length)
      (items.map .ok)) + turns writer < polls) :
    ∃ next, await WriteStep.poll polls (writeAddMultipleToStoreStream ctx room
        (UInt64.ofNat items.length) (items.map .ok), writer) = (.ready (), [], next) ∧
      written next = written writer ++ encodeStream ctx (items.map AddToStoreItem.content) ∧
      ∀ {patience rounds : Nat} {source : NixReader R} {rest : Bytes} (appetites : List Appetite),
        ProcessStderr.Fit ctx patience source →
        view.unread source.inner = encodeStream ctx (items.map AddToStoreItem.content) ++ rest →
        items.length < rounds →
        ∃ stream got last, parseAddMultipleToStore ctx patience source = .ready stream ∧
          stream.receive ctx patience rounds appetites [] = some (got, last) ∧
          Receives appetites (items.map AddToStoreItem.content) got ∧
          (LastDrained (items.map AddToStoreItem.content) got → last.AtRest rest) := by
  have writing := sendable.writing
  obtain ⟨next, awaited, -, wrote⟩ := WriteStep.await_poll patient steady writing.valid writing.regular
  rw [writing.joined] at wrote
  refine ⟨next, awaited, wrote, ?_⟩
  intro patience rounds source rest appetites fit arrives enough
  have length : (items.map AddToStoreItem.content).length = items.length := List.length_map _
  have each : ∀ item ∈ items.map AddToStoreItem.content,
      Carried ctx item.1 ∧ DaemonClient.Archive item.2 := by
    intro item member
    obtain ⟨item, listed, rfl⟩ := List.mem_map.mp member
    exact carried item listed
  exact received_encodeStream appetites fit arrives (length ▸ sendable.few) each (length ▸ enough)

end Reading

section Samples

attribute [local instance] Store.standard Digest.unasked Layout.least

/-- What is known of a store path whose archive is that of an empty file, below some directory. -/
def someInfo (storeDir : StoreDir) : ValidPathInfo :=
  ⟨somePath, ⟨none, ⟨⟨List.replicate 32 0, rfl⟩⟩, .empty, none, 120, false, .empty, none, storeDir⟩⟩

/-- A directory that is not the one of the connection. -/
def elsewhere : StoreDir := ⟨⟨asciiBytes "/tmp", by decide +kernel, by decide +kernel⟩⟩

/-- The item of some store path: its info and the archive of an empty file. -/
def someItem (storeDir : StoreDir) : AddToStoreItem BytesReader :=
  ⟨someInfo storeDir, (arriving emptyFile).reader.inner⟩

/-- The same item can be sent twice, over a connection that does not look at its directory. -/
theorem sendable_sample (storeDir : StoreDir) :
    Sendable ProcessStderr.shortTexts (fun _ _ => 80) [someItem storeDir, someItem storeDir] := by
  have each {P : AddToStoreItem BytesReader → Prop} (holds : P (someItem storeDir)) :
      ∀ item ∈ [someItem storeDir, someItem storeDir], P item := by
    intro item member
    rcases List.mem_cons.mp member with rfl | listed
    · exact holds
    · rwa [List.mem_singleton.mp listed]
  have fit := arriving_fit (show emptyFile.length < 256 by decide +kernel)
  have room : (write (fun _ => 80) (serialize ProcessStderr.shortTexts (someInfo .default))).isSome := by
    decide +kernel
  obtain ⟨bytes, writes⟩ := Option.isSome_iff_exists.mp room
  have fits := each (P := fun item => ∃ bytes, write (fun _ => 80) (serialize ProcessStderr.shortTexts
    item.info) = some bytes) ⟨bytes, writes⟩
  refine ⟨show 2 < 2 ^ 64 by decide, ?_, each fit.valid, each fit.regular⟩
  intro idx item listed
  exact fits item (List.mem_of_getElem? listed)

/-- The info of some store path is carried if the path is below the directory of the connection. -/
theorem carried_sample : Carried ProcessStderr.shortTexts (someInfo .default) := by
  have rooted : ProcessStderr.shortTexts.storeDir.Rooted := by decide
  have short : (ProcessStderr.shortTexts.storeDir.display somePath.display).length ≤ 64 := by decide +kernel
  have hash : Carried ProcessStderr.shortTexts (someInfo .default).info.narHash := ⟨trivial, by decide +kernel⟩
  refine ⟨⟨rooted, short⟩, ?_, hash, ?_, trivial, trivial, trivial, ?_, ?_, rfl⟩
  · rintro deriver ⟨⟩
  · exact ⟨by decide, List.forall_mem_nil _⟩
  · exact ⟨by decide, List.forall_mem_nil _⟩
  · rintro ca ⟨⟩

/-- The stream of two such items. -/
def twoItems (storeDir : StoreDir) : List (WriteStep BytesReader) :=
  writeAddMultipleToStoreStream ProcessStderr.shortTexts (fun _ _ => 80)
    (UInt64.ofNat [someItem storeDir, someItem storeDir].length)
    ([someItem storeDir, someItem storeDir].map .ok)

/-- What is written of them. -/
def twoItemsSent : Bytes :=
  encodeStream ProcessStderr.shortTexts ([someItem .default, someItem .default].map AddToStoreItem.content)

/-- The wire does not tell their directories apart. -/
theorem encodeStream_elsewhere (storeDir : StoreDir) :
    encodeStream ProcessStderr.shortTexts ([someItem storeDir, someItem storeDir].map AddToStoreItem.content) =
      twoItemsSent := by
  have same : serialize ProcessStderr.shortTexts (someInfo storeDir) =
      serialize ProcessStderr.shortTexts (someInfo .default) := rfl
  have content (storeDir : StoreDir) :
      AddToStoreItem.content (someItem storeDir) = (someInfo storeDir, emptyFile) := rfl
  simp only [twoItemsSent, encodeStream, encodeItems, List.map_cons, List.map_nil, List.flatMap_cons,
    List.flatMap_nil, content, same, List.length_cons, List.length_nil]

/-- Of the first archive three bytes are read, and all of the second. -/
def threeAndAll : List Appetite := [⟨[3], false⟩, ⟨[5], true⟩]

/-- Two items are written by and by, and received. -/
theorem addMultiple_in_step_twoItems :
    ∃ next : Sink, await WriteStep.poll (WriteStep.sizes (twoItems .default) + 3)
        (twoItems .default, ⟨[], [.pending, .take 3], 63⟩) = (.ready (), [], next) ∧
      written next = twoItemsSent ∧
      ∃ stream got last, parseAddMultipleToStore ProcessStderr.shortTexts 1024
          (arriving (twoItemsSent ++ [1, 2])).reader = .ready stream ∧
        stream.receive ProcessStderr.shortTexts 1024 3 threeAndAll [] = some (got, last) ∧
        Receives threeAndAll ([someItem .default, someItem .default].map AddToStoreItem.content) got ∧
        (LastDrained ([someItem .default, someItem .default].map AddToStoreItem.content) got →
          last.AtRest [1, 2]) := by
  have steady : Steady (⟨[], [.pending, .take 3], 63⟩ : Sink) :=
    show Sink.Steady ⟨[], [.pending, .take 3], 63⟩ by decide
  have few : (twoItemsSent ++ [1, 2]).length < 1024 := by decide +kernel
  have each : ∀ item ∈ [someItem .default, someItem .default],
      Carried ProcessStderr.shortTexts item.info ∧ DaemonClient.Archive (view.unread item.reader) := by
    intro item member
    rcases List.mem_cons.mp member with rfl | listed
    · exact ⟨carried_sample, emptyFile_archive⟩
    · rw [List.mem_singleton.mp listed]
      exact ⟨carried_sample, emptyFile_archive⟩
  have twice : turns (⟨[], [.pending, .take 3], 63⟩ : Sink) = 2 := rfl
  have patient : WriteStep.sizes (twoItems .default) + turns (⟨[], [.pending, .take 3], 63⟩ : Sink) <
      WriteStep.sizes (twoItems .default) + 3 := by
    omega
  unfold twoItems at patient ⊢
  obtain ⟨next, awaited, wrote, received⟩ := addMultiple_in_step (R := BytesReader) (sendable_sample .default)
    each steady patient
  exact ⟨next, awaited, wrote, received threeAndAll (arriving_fit few) rfl (by decide)⟩

/-- An item below another directory than that of the connection is received as one below that of the
connection. -/
theorem addMultiple_elsewhere :
    ¬ ∀ items : List (AddToStoreItem BytesReader),
      Sendable ProcessStderr.shortTexts (fun _ _ => 80) items →
      (∀ item ∈ items, DaemonClient.Archive (view.unread item.reader)) →
      ∀ (next : Sink) (polls : Nat), await WriteStep.poll polls
          (writeAddMultipleToStoreStream ProcessStderr.shortTexts (fun _ _ => 80)
            (UInt64.ofNat items.length) (items.map .ok), ⟨[], [], 63⟩) = (.ready (), [], next) →
        ∃ stream got last,
          parseAddMultipleToStore ProcessStderr.shortTexts 1024 (arriving next.written).reader = .ready stream ∧
          stream.receive ProcessStderr.shortTexts 1024 3 [] [] = some (got, last) ∧
          Receives [] (items.map AddToStoreItem.content) got := by
  intro every
  have archives : ∀ item ∈ [someItem elsewhere, someItem elsewhere],
      DaemonClient.Archive (view.unread item.reader) := by
    intro item member
    rcases List.mem_cons.mp member with rfl | listed
    · exact emptyFile_archive
    · rw [List.mem_singleton.mp listed]
      exact emptyFile_archive
  have steady : Steady (⟨[], [], 63⟩ : Sink) := show Sink.Steady ⟨[], [], 63⟩ by decide
  have writing := (sendable_sample elsewhere).writing
  obtain ⟨next, awaited, -, wrote⟩ := WriteStep.await_poll (Nat.lt_succ_self _) steady writing.valid
    writing.regular
  rw [writing.joined] at wrote
  obtain ⟨stream, got, last, parsed, received, receives⟩ := every _ (sendable_sample elsewhere) archives
    next _ awaited
  have same : next.written = twoItemsSent := wrote.trans (encodeStream_elsewhere elsewhere)
  have few : twoItemsSent.length < 1024 := by decide +kernel
  have each : ∀ item ∈ [someItem .default, someItem .default].map AddToStoreItem.content,
      Carried ProcessStderr.shortTexts item.1 ∧ DaemonClient.Archive item.2 := by
    intro item member
    rcases List.mem_cons.mp member with rfl | listed
    · exact ⟨carried_sample, emptyFile_archive⟩
    · rw [List.mem_singleton.mp listed]
      exact ⟨carried_sample, emptyFile_archive⟩
  obtain ⟨stream', got', last', parsed', received', receives', -⟩ := received_encodeStream [] (arriving_fit few)
    (List.append_nil _).symm (by decide) each (show 2 < 3 by decide)
  rw [same, parsed'] at parsed
  cases parsed
  rw [received'] at received
  cases received
  cases receives with
  | item starts whole finishes later =>
    cases receives'

end Samples

end Harmonia.Daemon
