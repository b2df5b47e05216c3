import Harmonia.Nar.RoundTrip

/-!
# Writing again what was parsed

The parser looks at every byte of an archive but those that fill up a name, a target or contents to whole
words. So the writer gives back the archive that was parsed, byte for byte, exactly when these are zero: the
encoding of the events is the same archive with its padding cleared.
-/

namespace Harmonia.Nar

open Library

/-- The bytes behind a length and what it counts are zero. -/
def Padded (place : Place) (bytes : Bytes) : Prop :=
  place.Measures → ∀ byte ∈ bytes.drop (8 + (fromLeBytes (bytes.take 8)).toNat), byte = 0

/-- The parts from a place to the end, with what they add, when their padding is zero. -/
inductive Plain : Place → Nat → Option Bytes → Bytes → List (NarEvent Bytes) → List Nat → Prop
  | finished (level : Nat) (name : Option Bytes) : Plain .finished level name [] [] []
  | part {place next : Place} {level after : Nat} {name name' : Option Bytes}
    {bytes rest : Bytes} {events events' : List (NarEvent Bytes)} {fields fields' : List Nat}
    (adds : Adds place level name bytes events fields name' next after) (padded : Padded place bytes)
    (later : Plain next after name' rest events' fields') :
    Plain place level name (bytes ++ rest) (events ++ events') (fields ++ fields')

/-- An archive is parsed with nothing but zeros behind its names, targets and contents. -/
def ZeroPadded (input : Bytes) : Prop :=
  ∃ bytes events fields, input = tokRoot ++ bytes ∧ Plain .node 0 none bytes events fields

section Fields

variable {len : UInt64} {payload : Bytes}

/-- The padding of a field. -/
theorem padded_field (place : Place) (len : UInt64) (payload : Bytes) :
    Padded place (toLeBytes len ++ payload) ↔ (place.Measures → ∀ byte ∈ payload.drop len.toNat, byte = 0) := by
  have word := toLeBytes_length len
  unfold Padded
  rw [List.take_left' word, fromLeBytes_toLeBytes, ← List.drop_drop, List.drop_left' word]

/-- A payload whose padding is zero is what is counted and as many zeros as pad it. -/
theorem payload_eq (sized : payload.length = codeAlign len) (fits : Fits len)
    (zero : ∀ byte ∈ payload.drop len.toNat, byte = 0) :
    payload = payload.take len.toNat ++ List.replicate (calcPadding len) 0 := by
  have aligned : codeAlign len = alignNat len.toNat := calcAligned_fits fits
  have length : (payload.drop len.toNat).length = calcPadding len := by
    rw [List.length_drop, calcPadding_fits fits]
    omega
  have padding : payload.drop len.toNat = List.replicate (calcPadding len) 0 := by
    rw [← length]
    exact List.eq_replicate_of_mem zero
  rw [← padding, List.take_append_drop]

/-- A field whose padding is zero is the slice that it counts. -/
theorem field_eq_slice (sized : payload.length = codeAlign len) (fits : Fits len)
    (zero : ∀ byte ∈ payload.drop len.toNat, byte = 0) :
    toLeBytes len ++ payload = putNixSlice (payload.take len.toNat) := by
  have aligned : codeAlign len = alignNat len.toNat := calcAligned_fits fits
  have grows := le_alignNat len.toNat
  have count : (payload.take len.toNat).length = len.toNat := by
    rw [List.length_take]
    omega
  rw [putNixSlice, count, UInt64.ofNat_toNat, List.append_assoc, ← payload_eq sized fits zero]

/-- A field has the same length and the same slice with zeros for its padding. -/
theorem exists_field (sized : payload.length = codeAlign len) (fits : Fits len) :
    ∃ clear : Bytes, clear.length = codeAlign len ∧ clear.take len.toNat = payload.take len.toNat ∧
      ∀ byte ∈ clear.drop len.toNat, byte = 0 := by
  have aligned : codeAlign len = alignNat len.toNat := calcAligned_fits fits
  have grows := le_alignNat len.toNat
  have count : (payload.take len.toNat).length = len.toNat := by
    rw [List.length_take]
    omega
  refine ⟨payload.take len.toNat ++ List.replicate (codeAlign len - len.toNat) 0, ?_, ?_, ?_⟩
  · rw [List.length_append, count, List.length_replicate]
    omega
  · exact List.take_left' count
  · rw [List.drop_left' count]
    exact fun byte among => List.eq_of_mem_replicate among

end Fields

section Parts

variable {place next : Place} {level after : Nat} {name name' : Option Bytes} {bytes rest : Bytes}
  {events events' : List (NarEvent Bytes)} {fields fields' : List Nat}

/-- What a part adds is added by a part whose padding is zero. -/
theorem Adds.clear (adds : Adds place level name bytes events fields name' next after) :
    ∃ clear, Adds place level name clear events fields name' next after ∧ Padded place clear := by
  -- A token is no field.
  have token {place : Place} {bytes : Bytes} (apart : ¬ place.Measures) : Padded place bytes :=
    fun measures => absurd measures apart
  cases adds with
  | header nodeType => exact ⟨_, .header nodeType level name, token not_false⟩
  | directory => exact ⟨_, .directory level name, token not_false⟩
  | target _ _ len payload sized fits =>
    obtain ⟨clear, size, same, zero⟩ := exists_field sized fits
    have again := Adds.target level name len clear size fits
    rw [same] at again
    exact ⟨_, again, (padded_field _ len clear).mpr fun _ => zero⟩
  | contents nodeType file _ _ len payload sized fits =>
    obtain ⟨clear, size, same, zero⟩ := exists_field sized fits
    have again := Adds.contents nodeType file level name len clear size fits
    rw [same] at again
    exact ⟨_, again, (padded_field _ len clear).mpr fun _ => zero⟩
  | closeRoot => exact ⟨_, .closeRoot name, token not_false⟩
  | close level => exact ⟨_, .close level name, token not_false⟩
  | entry => exact ⟨_, .entry level name, token not_false⟩
  | name _ _ len payload sized fits =>
    obtain ⟨clear, size, same, zero⟩ := exists_field sized fits
    have again := Adds.name level name len clear size fits
    rw [same] at again
    exact ⟨_, again, (padded_field _ len clear).mpr fun _ => zero⟩
  | mark => exact ⟨_, .mark level name, token not_false⟩
  | closeEntry => exact ⟨_, .closeEntry level name, token not_false⟩
  | closeRootDirectory => exact ⟨_, .closeRootDirectory name, token not_false⟩
  | closeDirectory level => exact ⟨_, .closeDirectory level name, token not_false⟩

/-- What is told of an archive is told of it with its padding cleared. -/
theorem Story.clear (story : Story place level name bytes events fields) :
    ∃ clear, Plain place level name clear events fields := by
  induction story with
  | finished level name => exact ⟨[], .finished level name⟩
  | part adds _ ih =>
    obtain ⟨part, adds', padded⟩ := adds.clear
    obtain ⟨rest, later⟩ := ih
    exact ⟨part ++ rest, .part adds' padded later⟩

/-- An archive whose padding is zero is an archive. -/
theorem Plain.story (plain : Plain place level name bytes events fields) :
    Story place level name bytes events fields := by
  induction plain with
  | finished level name => exact .finished level name
  | part adds _ _ ih => exact .part adds ih

/-- What the writer has put down before a place, since the last event. -/
def Place.front (level : Nat) (name : Option Bytes) : Place → Bytes
  | .node => (if level = 0 then tokRoot else []) ++ NarWriter.entry level (name.getD [])
  | .body nodeType =>
    (if level = 0 then tokRoot else []) ++ NarWriter.entry level (name.getD []) ++ nodeType.header
  | .name => tokEntry
  | .mark => tokEntry ++ putNixSlice (name.getD [])
  | _ => []

/-- What belongs to the last event at a place. -/
def Place.owed (level : Nat) : Place → Bytes
  | .close => closing level
  | .closeEntry => tokPar
  | _ => []

/-- The rest of an archive is the encoding of the rest of its events. -/
def Encodes (place : Place) (level : Nat) (name : Option Bytes) (bytes : Bytes)
    (events : List (NarEvent Bytes)) : Prop :=
  place.front level name ++ bytes = place.owed level ++ encode level events

/-- A part whose padding is zero is as the writer has it. -/
theorem Adds.encodes (adds : Adds place level name bytes events fields name' next after)
    (padded : Padded place bytes)
    (opened : place = .entries ∨ place = .closeEntry ∨ place = .name ∨ place = .mark → 0 < level)
    (last : next = .finished → events' = []) (later : Encodes next after name' rest events') :
    Encodes place level name (bytes ++ rest) (events ++ events') := by
  unfold Encodes at later ⊢
  cases adds with
  | header nodeType =>
    simp only [Place.front, Place.owed, List.append_assoc, List.nil_append] at later ⊢
    exact later
  | directory =>
    simp only [Place.front, Place.owed, List.nil_append] at later
    simp only [Place.front, Place.owed, List.append_assoc, List.nil_append, List.cons_append, encode,
      encodeEvent, NarEvent.levelAfter, later]
  | target _ _ len payload sized fits =>
    have zero := (padded_field _ len payload).mp padded trivial
    simp only [Place.front, Place.owed, List.nil_append] at later
    rw [field_eq_slice sized fits zero]
    simp only [Place.front, Place.owed, NodeType.header, List.append_assoc, List.nil_append, List.cons_append,
      encode, encodeEvent, NarEvent.levelAfter, later]
  | contents nodeType file _ _ len payload sized fits =>
    have zero := (padded_field _ len payload).mp padded trivial
    have header : nodeType.header = if (nodeType = .executableFile : Bool) then tokFileE else tokFile := by
      cases nodeType with
      | file => rfl
      | executableFile => rfl
      | symlink => exact absurd rfl file
    have body := payload_eq sized fits zero
    simp only [Place.front, Place.owed, List.nil_append] at later
    generalize payload.take len.toNat = contents at body ⊢
    rw [body]
    simp only [Place.front, Place.owed, header, List.append_assoc, List.nil_append, List.cons_append, encode,
      encodeEvent, NarEvent.levelAfter, later]
  | closeRoot =>
    simp only [Place.front, Place.owed, List.nil_append] at later
    simp only [Place.front, Place.owed, closing, later, List.nil_append, List.append_nil, if_true]
  | close level =>
    simp only [Place.front, Place.owed, List.nil_append] at later
    simp only [Place.front, Place.owed, closing, later, List.nil_append, List.append_assoc,
      if_neg (Nat.succ_ne_zero level)]
  | entry =>
    simp only [Place.front, Place.owed, List.nil_append] at later ⊢
    exact later
  | name _ _ len payload sized fits =>
    have zero := (padded_field _ len payload).mp padded trivial
    rw [field_eq_slice sized fits zero]
    simp only [Place.front, Place.owed, List.nil_append, Option.getD_some, List.append_assoc] at later ⊢
    exact later
  | mark =>
    have positive := opened (.inr (.inr (.inr rfl)))
    simp only [Place.front, Place.owed, NarWriter.entry, if_pos positive, if_neg (Nat.ne_of_gt positive),
      List.nil_append, List.append_assoc] at later ⊢
    exact later
  | closeEntry =>
    simp only [Place.front, Place.owed, List.nil_append] at later ⊢
    rw [later]
  | closeRootDirectory =>
    have none := last rfl
    subst none
    simp only [Place.front, Place.owed, encode, List.append_nil, List.nil_append] at later
    rw [later]
    rfl
  | closeDirectory level =>
    simp only [Place.front, Place.owed, List.nil_append] at later
    simp only [Place.front, Place.owed, encode, encodeEvent, closing, NarEvent.levelAfter, later,
      List.nil_append, List.cons_append, List.append_assoc, if_neg (Nat.succ_ne_zero _), Nat.add_one_sub_one]

/-- At the end of an archive nothing more is told. -/
theorem Story.last (story : Story .finished level name bytes events fields) : events = [] := by
  generalize same : Place.finished = place at story
  cases story with
  | finished => rfl
  | part adds => cases adds <;> cases same

/-- An archive whose padding is zero is the encoding of its events. -/
theorem Plain.encodes {word : Bytes} (plain : Plain place level name bytes events fields)
    (reads : Reads codeAlign word place level) : Encodes place level name bytes events := by
  induction plain generalizing word with
  | finished level name => rfl
  | part adds padded later ih =>
    apply adds.encodes padded reads.opened
    · rintro rfl
      exact later.story.last
    · exact ih (reads.more adds.part)

/-- A part closes no directory that is not open. -/
theorem Adds.nested (adds : Adds place level name bytes events fields name' next after)
    (last : next = .finished → events' = []) (later : Nested after events') :
    Nested level (events ++ events') := by
  cases adds with
  | header nodeType => exact later
  | directory => exact later
  | target => exact later
  | contents => exact later
  | closeRoot => exact later
  | close => exact later
  | entry => exact later
  | name => exact later
  | mark => exact later
  | closeEntry => exact later
  | closeRootDirectory =>
    rw [last rfl]
    exact ⟨Nat.one_pos, trivial⟩
  | closeDirectory level => exact ⟨Nat.succ_pos _, later⟩

/-- The events of an archive close no directory that is not open. -/
theorem Story.nested (story : Story place level name bytes events fields) : Nested level events := by
  induction story with
  | finished level name => trivial
  | part adds later ih =>
    apply adds.nested
    · rintro rfl
      exact later.last
    · exact ih

/-- The encoding of the events of an archive is the archive exactly when its padding is zero. -/
theorem encode_eq_iff {input : Bytes} {events : List (NarEvent Bytes)} {fields : List Nat}
    (told : parse none .start input = ⟨events, fields, .clean []⟩) :
    encode 0 events = input ↔ ZeroPadded input := by
  obtain ⟨bytes, events', fields', joined, story⟩ := parse_clean (congrArg Transcript.ending told)
  rw [List.append_nil] at joined
  subst joined
  have again := story.archive []
  rw [List.append_nil, told] at again
  cases again
  have encodes {bytes : Bytes} {fields : List Nat} (plain : Plain .node 0 none bytes events fields) :
      encode 0 events = tokRoot ++ bytes := by
    have whole := plain.encodes Reads.start
    unfold Encodes at whole
    simp only [Place.front, Place.owed, NarWriter.entry, if_true, Nat.lt_irrefl, gt_iff_lt, if_false,
      List.append_nil, List.nil_append] at whole
    exact whole.symm
  constructor
  · intro same
    obtain ⟨clear, plain⟩ := story.clear
    rw [encodes plain] at same
    refine ⟨clear, events, fields, same.symm, plain⟩
  · rintro ⟨bytes', events', fields', same, plain⟩
    have again := plain.story.archive []
    rw [List.append_nil, ← same, told] at again
    cases again
    rw [encodes plain, same]

end Parts

/-- Two archives with the same events are the same when their padding is zero. -/
theorem ZeroPadded.unique {one other : Bytes} {events : List (NarEvent Bytes)} {fields fields' : List Nat}
    (zero : ZeroPadded one) (zero' : ZeroPadded other)
    (told : parse none .start one = ⟨events, fields, .clean []⟩)
    (told' : parse none .start other = ⟨events, fields', .clean []⟩) : one = other :=
  ((encode_eq_iff told).mpr zero).symm.trans ((encode_eq_iff told').mpr zero')

/-- The file behind an entry of the log was read to its end. -/
def NarEvent.AllServed : NarEvent Served → Prop
  | .file _ _ _ served => served.ended = true
  | _ => True

/-- A consumer that reads every file to its end gets the events. -/
theorem Delivers.whole {appetites : List Appetite} {events : List (NarEvent Bytes)}
    {log : List (NarEvent Served)} (delivers : Delivers appetites events log)
    (whole : ∀ entry ∈ log, entry.AllServed) : log.map (NarEvent.map Served.bytes) = events := by
  induction delivers with
  | nil appetites => rfl
  | event event later ih =>
    have rest := ih (List.forall_mem_cons.mp whole).2
    rw [List.map_cons, rest]
    cases event with
    | file _ _ _ none => exact none.elim
    | symlink name target => rfl
    | startDirectory name => rfl
    | endDirectory => rfl
  | file name executable size starts all finishes later ih =>
    obtain ⟨ended, whole⟩ := List.forall_mem_cons.mp whole
    rw [List.map_cons, ih whole, NarEvent.map, all ended]

/-- A consumer without appetites of its own reads every file to its end. -/
theorem Delivers.finished {events : List (NarEvent Bytes)} {log : List (NarEvent Served)}
    (delivers : Delivers [] events log) : log = events.map (NarEvent.map fun bytes => ⟨bytes, true⟩) := by
  generalize plain : ([] : List Appetite) = appetites at delivers
  induction delivers with
  | nil appetites => rfl
  | event event later ih =>
    rw [List.map_cons, ← ih plain]
    cases event with
    | file _ _ _ none => exact none.elim
    | symlink name target => rfl
    | startDirectory name => rfl
    | endDirectory => rfl
  | @file _ _ _ name executable size bytes served starts all finishes later ih =>
    subst plain
    have ended : served.ended = true := finishes rfl
    rw [List.map_cons, ← ih rfl, NarEvent.map, ← all ended, ← ended]

section Rewriting

variable {R Q : Type} [AsyncBytesRead R] [LawfulBytesRead R] [AsyncBufRead Q] [LawfulBufRead Q]

/-- An archive that the parser consumes, with every file read to its end, has the events of the log. -/
theorem readEvents_whole {reader : R} (valid : view.Valid reader) {appetites : List Appetite}
    {log : List (NarEvent Served)} {session : Session R}
    (parsed : readEvents appetites reader = .ended log session)
    (consumed : ∀ left, session.parser.reader = .available left → view.unread left = [])
    (whole : ∀ entry ∈ log, entry.AllServed) :
    ∃ fields, parse none .start (view.unread reader) =
      ⟨log.map (NarEvent.map Served.bytes), fields, .clean []⟩ := by
  have knows : Trust.never.Knows reader := fun never => never.elim
  have collects := readEvents_collects appetites valid knows fun never => never.elim
  rw [parsed] at collects
  generalize same : Outcome.ended log session = outcome at collects
  cases collects with
  | @ended session' left more fields recounts holds =>
    cases same
    obtain ⟨events, fields', told, delivers⟩ := recounts.split
    rw [consumed left holds] at told
    rw [List.nil_append] at whole ⊢
    have all : more.map (NarEvent.map Served.bytes) = events := delivers.whole whole
    refine ⟨fields' ++ fields, told.trans ?_⟩
    rw [Transcript.after, List.append_nil, all]
  | failed => cases same
  | file => cases same
  | panicked => cases same

/-- What a writer makes of the events and contents that the parser told of an archive is the archive
exactly when all the padding in it is zero. -/
theorem rewritten_exact {reader : R} (valid : view.Valid reader) {appetites : List Appetite}
    {log : List (NarEvent Served)} {session : Session R}
    (parsed : readEvents appetites reader = .ended log session)
    (consumed : ∀ left, session.parser.reader = .available left → view.unread left = [])
    (whole : ∀ entry ∈ log, entry.AllServed) {events : List (NarEvent Q × Bool)}
    (same : events.map (fun item => item.1.contents) = log.map (NarEvent.map Served.bytes))
    (readers : ∀ item ∈ events, item.1.Valid ∧ item.1.Regular) {accepts : List Accept} {most : Nat}
    (takes : Sink.Steady ⟨[], accepts, most⟩) :
    ∃ writer, writeNar events ⟨[], accepts, most⟩ = (.ready (), writer) ∧
      (writer.writer.written = view.unread reader ↔ ZeroPadded (view.unread reader)) := by
  obtain ⟨fields, told⟩ := readEvents_whole valid parsed consumed whole
  have nested : Nested 0 (events.map Prod.fst) := by
    obtain ⟨_, events', _, joined, story⟩ := parse_clean (congrArg Transcript.ending told)
    have again := story.archive []
    rw [← joined, told] at again
    cases again
    apply Nested.of_contents
    rw [List.map_map]
    exact same ▸ story.nested
  obtain ⟨writer, wrote, written⟩ := writeNar_delivers takes readers nested
  refine ⟨writer, wrote, ?_⟩
  rw [written, List.nil_append, same]
  exact encode_eq_iff told

end Rewriting

/-- An archive of a file of three bytes, whose contents are filled up with a byte. -/
def filledFile (fill : UInt8) : Bytes :=
  tokRoot ++ (NodeType.file.header ++ (toLeBytes 3 ++ ([1, 2, 3] ++ List.replicate 5 fill) ++ (tokPar ++ [])))

/-- The file in that archive. -/
theorem filledFile_story (fill : UInt8) :
    ∃ bytes, filledFile fill = tokRoot ++ bytes ∧ Story .node 0 none bytes [.file [] false 3 [1, 2, 3]] [] := by
  have file : NodeType.file ≠ .symlink := NodeType.noConfusion
  have fits : Fits 3 := by decide
  have sized : ([1, 2, 3] ++ List.replicate 5 fill).length = codeAlign 3 := by
    rw [List.length_append, List.length_replicate]
    decide
  have contents := Adds.contents .file file 0 none 3 ([1, 2, 3] ++ List.replicate 5 fill) sized fits
  exact ⟨_, rfl, .part (.header .file 0 none) (.part contents (.part (.closeRoot none) (.finished 0 none)))⟩

/-- The source of that archive. -/
def filledReader (fill : UInt8) : BytesReader :=
  BytesReader.build 8192 8388608 true ⟨filledFile fill, [.data 100, .pending], 9⟩

/-- Whatever it is filled up with, the parser consumes that archive and tells the same. -/
theorem readEvents_filledFile (fill : UInt8) :
    ∃ session, readEvents [] (filledReader fill) = .ended [.file [] false 3 ⟨[1, 2, 3], true⟩] session ∧
      ∀ left, session.parser.reader = .available left → view.unread left = [] := by
  obtain ⟨bytes, joined, story⟩ := filledFile_story fill
  have told := story.archive []
  rw [List.append_nil, ← joined] at told
  have steady : Source.Steady ⟨filledFile fill, [.data 100, .pending], 9⟩ :=
    (by decide : ∀ turn ∈ [Turn.data 100, .pending], turn.isFailure = false)
  have chunk : Source.largest ⟨filledFile fill, [.data 100, .pending], 9⟩ ≤ 101 := Nat.min_le_right _ _
  have collects := parseNar_collects [] steady (show 0 < 8192 by decide) (show 8192 * 2 ≤ 8388608 by decide)
  rw [told] at collects
  rcases collects.of_clean rfl trivial with
    ⟨log, session, reader, ended, delivers, holds, unread⟩ | ⟨_, _, _, _, _, large⟩
  · refine ⟨session, ?_, ?_⟩
    · cases delivers.finished
      exact ended
    · intro left same
      rw [holds] at same
      cases same
      exact unread
  · exfalso
    rcases large with large | ⟨field, listed, large⟩
    · simp only [steadyTrust] at large
      omega
    · cases listed

/-- A file of three bytes as it is written again. -/
def rewrittenFile : List (NarEvent BufReader × Bool) :=
  [(.file [] false 3 (BufReader.new 2 ⟨[1, 2, 3], [.pending], 0⟩), false)]

/-- The archive that is filled up with zeros is written again. -/
theorem rewritten_exact_sample :
    ∃ writer, writeNar rewrittenFile ⟨[], [.take 5, .pending], 0⟩ = (.ready (), writer) ∧
      (writer.writer.written = filledFile 0 ↔ ZeroPadded (filledFile 0)) := by
  obtain ⟨session, parsed, consumed⟩ := readEvents_filledFile 0
  have whole : ∀ entry ∈ [NarEvent.file [] false 3 (Served.mk [1, 2, 3] true)], entry.AllServed := by
    intro entry listed
    cases List.mem_singleton.mp listed
    rfl
  have readers : ∀ item ∈ rewrittenFile, item.1.Valid ∧ item.1.Regular := by
    intro item listed
    cases List.mem_singleton.mp listed
    exact ⟨(by decide : 0 < 2), (by decide : Source.Steady ⟨[1, 2, 3], [.pending], 0⟩)⟩
  have valid : view.Valid (filledReader 0) := BytesReader.build_sound (by decide) _ _ _
  have takes : Sink.Steady ⟨[], [.take 5, .pending], 0⟩ := by decide
  exact rewritten_exact valid parsed consumed whole (show _ = _ by rfl) readers takes

/-- An archive that is filled up with ones is parsed to its end, and its events are those of another. -/
theorem filledFile_rewritten :
    (∀ fill, ∃ session,
      readEvents [] (filledReader fill) = .ended [.file [] false 3 ⟨[1, 2, 3], true⟩] session ∧
        ∀ left, session.parser.reader = .available left → view.unread left = []) ∧
      view.unread (filledReader 1) = filledFile 1 ∧ filledFile 1 ≠ filledFile 0 ∧
      (writeNar rewrittenFile ⟨[], [.take 5, .pending], 0⟩).2.writer.written = filledFile 0 :=
  ⟨readEvents_filledFile, rfl, by decide +kernel, by decide +kernel⟩

end Harmonia.Nar
