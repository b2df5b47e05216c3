import Mathlib.Data.List.Basic
import Mathlib.Algebra.Order.Ring.Nat
import Harmonia.Nar.Transcript

/-!
# The transcript, part by part

Each part of an archive adds its own events to the transcript (`Adds`). Where the parts stop,
the transcript is cut, invalid or broken. So a transcript with a clean ending is a `Story`:
the parts from a place to the end, with what they add.
-/

namespace Harmonia.Nar

open Library

/-- What a part adds to the transcript: events and fields, and the name known before and after. -/
inductive Adds : Place → Nat → Option Bytes → Bytes → List (NarEvent Bytes) → List Nat →
    Option Bytes → Place → Nat → Prop
  | header (nodeType : NodeType) (level : Nat) (name : Option Bytes) :
    Adds .node level name nodeType.header [] [] name (.body nodeType) level
  | directory (level : Nat) (name : Option Bytes) :
    Adds .node level name tokDir [.startDirectory (name.getD [])] [] none .entries (level + 1)
  | target (level : Nat) (name : Option Bytes) (len : UInt64) (payload : Bytes)
    (sized : payload.length = codeAlign len) (fits : Fits len) :
    Adds (.body .symlink) level name (toLeBytes len ++ payload)
      [.symlink (name.getD []) (payload.take len.toNat)] [codeAlign len] none .close level
  | contents (nodeType : NodeType) (file : nodeType ≠ .symlink) (level : Nat)
    (name : Option Bytes) (len : UInt64) (payload : Bytes) (sized : payload.length = codeAlign len)
    (fits : Fits len) :
    Adds (.body nodeType) level name (toLeBytes len ++ payload)
      [.file (name.getD []) (nodeType = .executableFile) len (payload.take len.toNat)] [] none
      .close level
  | closeRoot (name : Option Bytes) : Adds .close 0 name tokPar [] [] name .finished 0
  | close (level : Nat) (name : Option Bytes) :
    Adds .close (level + 1) name tokPar [] [] name .closeEntry (level + 1)
  | entry (level : Nat) (name : Option Bytes) :
    Adds .entries level name tokEntry [] [] name .name level
  | name (level : Nat) (name : Option Bytes) (len : UInt64) (payload : Bytes)
    (sized : payload.length = codeAlign len) (fits : Fits len) :
    Adds .name level name (toLeBytes len ++ payload) [] [codeAlign len]
      (some (payload.take len.toNat)) .mark level
  | mark (level : Nat) (name : Option Bytes) : Adds .mark level name tokNode [] [] name .node level
  | closeEntry (level : Nat) (name : Option Bytes) :
    Adds .closeEntry level name tokPar [] [] name .entries level
  | closeRootDirectory (name : Option Bytes) :
    Adds .entries 1 name tokPar [.endDirectory] [] name .finished 1
  | closeDirectory (level : Nat) (name : Option Bytes) :
    Adds .entries (level + 2) name tokPar [.endDirectory] [] name .closeEntry (level + 1)

section Parts

variable {place next : Place} {level after : Nat} {name name' : Option Bytes} {bytes : Bytes}
  {events : List (NarEvent Bytes)} {fields : List Nat}

/-- What adds to the transcript is a part. -/
theorem Adds.part (adds : Adds place level name bytes events fields name' next after) :
    Part codeAlign place level bytes next after := by
  cases adds with
  | header nodeType => exact .header nodeType level
  | directory => exact .directory level
  | target _ _ len payload sized fits => exact .body .symlink level len payload sized
  | contents nodeType file _ _ len payload sized fits => exact .body nodeType level len payload sized
  | closeRoot => exact .closeRoot
  | close level => exact .close level
  | entry => exact .entry level
  | name _ _ len payload sized fits => exact .name level len payload sized
  | mark => exact .mark level
  | closeEntry => exact .closeEntry level
  | closeRootDirectory => exact .closeRootDirectory
  | closeDirectory level => exact .closeDirectory level

/-- A part with a length that fits adds to the transcript, whatever name is known. -/
theorem Part.adds (step : Part codeAlign place level bytes next after)
    (fits : ∀ len, place.Measures → toLeBytes len <+: bytes → Fits len) (name : Option Bytes) :
    ∃ events fields name', Adds place level name bytes events fields name' next after := by
  cases step with
  | header nodeType => exact ⟨_, _, _, .header nodeType level name⟩
  | directory => exact ⟨_, _, _, .directory level name⟩
  | body nodeType _ len payload sized =>
    have small := fits len trivial (List.prefix_append _ _)
    by_cases file : nodeType = .symlink
    · subst file
      exact ⟨_, _, _, .target level name len payload sized small⟩
    · exact ⟨_, _, _, .contents nodeType file level name len payload sized small⟩
  | closeRoot => exact ⟨_, _, _, .closeRoot name⟩
  | close level => exact ⟨_, _, _, .close level name⟩
  | entry => exact ⟨_, _, _, .entry level name⟩
  | name _ len payload sized =>
    have small := fits len trivial (List.prefix_append _ _)
    exact ⟨_, _, _, .name level name len payload sized small⟩
  | mark => exact ⟨_, _, _, .mark level name⟩
  | closeEntry => exact ⟨_, _, _, .closeEntry level name⟩
  | closeRootDirectory => exact ⟨_, _, _, .closeRootDirectory name⟩
  | closeDirectory level => exact ⟨_, _, _, .closeDirectory level name⟩

end Parts

/-! ## The transcript follows the parts -/

/-- Before the end the automaton waits for bytes. -/
theorem Place.waits {place : Place} (live : place ≠ .finished) (level : Nat) :
    ∃ s, drive false ⟨place.state, level⟩ [] = .done s 0 ∧ ¬ Halted false s := by
  have law := drive_lawful false
  obtain ⟨_, par, node⟩ := tokens_nonempty
  have token {wait : Nat → InnerState} {tok : Bytes} {next : InnerState} {inner : Inner}
      (turns : driveStep false inner = readToken wait tok 0 next level) (nonempty : 0 < tok.length)
      (idle : ¬ Halted false ⟨wait 0, level⟩) :
      ∃ s, drive false inner [] = .done s 0 ∧ ¬ Halted false s := by
    refine ⟨⟨wait 0, level⟩, law.run_stop (m := driveMachine false) ?_, idle⟩
    change driveStep false inner [] = _
    rw [turns, readToken_eq wait (Nat.zero_le _), if_neg, if_pos List.nil_prefix]
    · rfl
    · rw [List.drop_zero, List.prefix_nil]
      exact List.ne_nil_of_length_pos nonempty
  have select {N E B : Nat} {tree : RTree N E B InnerState} {cursor : RLookup}
      {wait : RLookup → InnerState} {error : IoError} {inner : Inner}
      (looked : tree.lookup [] default 0 = some (.needsMore, cursor))
      (turns : driveStep false inner = selectToken tree wait error default level)
      (idle : ¬ Halted false ⟨wait cursor, level⟩) :
      ∃ s, drive false inner [] = .done s 0 ∧ ¬ Halted false s := by
    refine ⟨⟨wait cursor, level⟩, law.run_stop (m := driveMachine false) ?_, idle⟩
    change driveStep false inner [] = _
    rw [turns, selectToken, looked]
    rfl
  have field {wait : Bytes → Nat → InnerState} {done : UInt64 → InnerState} {inner : Inner}
      (turns : driveStep false inner = readLen wait done zeros 0 level)
      (idle : ∀ value, ¬ Halted false ⟨wait value 0, level⟩) :
      ∃ s, drive false inner [] = .done s 0 ∧ ¬ Halted false s := by
    obtain ⟨value, turn⟩ := @readLen_short wait done level [] (by decide)
    exact ⟨_, law.run_stop (m := driveMachine false) ((congrFun turns []).trans turn), idle value⟩
  have noNode : nodeSelect.lookup [] default 0 = some (.needsMore, default) := by decide +kernel
  have noEntry : entrySelect.lookup [] default 0 = some (.needsMore, default) := by decide +kernel
  cases place with
  | node => exact select noNode rfl id
  | body nodeType =>
    have turns : driveStep false ⟨(Place.body nodeType).state, level⟩ =
        readLen (.readContentsLen nodeType)
          (fun len => .readContents nodeType len (calcAligned len)) zeros 0 level := rfl
    exact field turns fun _ => id
  | close => exact token rfl par id
  | entries => exact select noEntry rfl id
  | name =>
    have turns : driveStep false ⟨Place.name.state, level⟩ = readLen .readEntryNameLen
        (fun len => .readEntryName len (calcAligned len)) zeros 0 level := rfl
    exact field turns fun _ => id
  | mark => exact token rfl node id
  | closeEntry => exact token rfl par id
  | finished => exact absurd rfl live

/-- Every state of a place before the end is live. -/
theorem Place.state_live {place : Place} (live : place ≠ .finished) : place.state ≠ .eof := by
  cases place <;> first | exact InnerState.noConfusion | exact absurd rfl live

/-- Past bytes that only lead to the next place, the transcript is that of the place. -/
theorem parse_shift {name : Option Bytes} {inner : Inner} {next : Place} {after : Nat}
    {part rest : Bytes} (live : inner.state ≠ .eof) (nonempty : part ≠ [])
    (shift : drive false inner (part ++ rest) =
      (drive false ⟨next.state, after⟩ rest).shift part.length) :
    parse name inner (part ++ rest) = parse name ⟨next.state, after⟩ rest := by
  rw [parse_find live (List.append_ne_nil_of_left_ne_nil nonempty rest), Inner.find, shift]
  by_cases past : next = .finished
  · subst past
    have stays : drive false ⟨.eof, after⟩ rest = .done ⟨.eof, after⟩ 0 :=
      (drive_lawful false).run_stop (m := driveMachine false) rfl
    simp only [Place.state, stays, Run.shift, Nat.add_zero, List.drop_left, parse_eof]
    rfl
  · by_cases none : rest = []
    · subst none
      obtain ⟨s, ran, waiting⟩ := Place.waits past after
      simp only [ran, Run.shift, Inner.found_waiting waiting, Found.transcript]
      rw [parse_nil (Place.state_live past), Inner.awaited_idle ran waiting]
    · rw [parse_find (Place.state_live past) none, Inner.find]
      cases drive false ⟨next.state, after⟩ rest with
      | done s n => simp only [Run.shift, List.drop_length_add_append]
      | fail s e => rfl
      | panic => rfl

/-- Past bytes that lead to a stop, the transcript is that of what stands there. -/
theorem parse_stop {name : Option Bytes} {inner mark stop : Inner} {part rest : Bytes}
    (live : inner.state ≠ .eof) (nonempty : part ≠ [])
    (shift : drive false inner (part ++ rest) = (drive false mark rest).shift part.length)
    (stops : driveStep false mark rest = .stop stop 0) :
    parse name inner (part ++ rest) = (stop.found name rest).transcript := by
  have stays : drive false mark rest = .done stop 0 :=
    (drive_lawful false).run_stop (m := driveMachine false) stops
  rw [parse_find live (List.append_ne_nil_of_left_ne_nil nonempty rest), Inner.find, shift, stays]
  simp only [Run.shift, Nat.add_zero, List.drop_left]

/-- A length word is not empty. -/
theorem toLeBytes_ne_nil (len : UInt64) : toLeBytes len ≠ [] :=
  List.ne_nil_of_length_pos (by rw [toLeBytes_length]; decide)

/-- The transcript from a body's length on. -/
theorem parse_body (name : Option Bytes) (nodeType : NodeType) (level : Nat) (len : UInt64)
    (behind : Bytes) : parse name ⟨.readContentsLen nodeType zeros 0, level⟩
      (toLeBytes len ++ behind) =
        (Inner.found name ⟨.readContents nodeType len (calcAligned len), level⟩ behind).transcript := by
  have shift := drive_bodyLen false nodeType level len behind
  rw [← toLeBytes_length len] at shift
  exact parse_stop InnerState.noConfusion (toLeBytes_ne_nil len) shift rfl

/-- The transcript from a name's length on. -/
theorem parse_name (name : Option Bytes) (level : Nat) (len : UInt64) (behind : Bytes) :
    parse name ⟨.readEntryNameLen zeros 0, level⟩ (toLeBytes len ++ behind) =
      (Inner.found name ⟨.readEntryName len (calcAligned len), level⟩ behind).transcript := by
  have shift := drive_nameLen false level len behind
  rw [← toLeBytes_length len] at shift
  exact parse_stop InnerState.noConfusion (toLeBytes_ne_nil len) shift rfl

/-- A field that fits stands in front of what follows it. -/
theorem field_fits {len : UInt64} (fits : Fits len) {payload : Bytes}
    (sized : payload.length = codeAlign len) (rest : Bytes) :
    (calcAligned len).toNat ≤ (payload ++ rest).length ∧ len.toNat ≤ (calcAligned len).toNat ∧
      (payload ++ rest).take len.toNat = payload.take len.toNat ∧
      (payload ++ rest).drop (calcAligned len).toNat = rest := by
  have grows := le_alignNat len.toNat
  have aligned := calcAligned_fits fits
  unfold codeAlign at sized
  refine ⟨?_, by omega, ?_, ?_⟩
  · rw [List.length_append]
    omega
  · rw [List.take_append_of_le_length (by omega)]
  · rw [← sized, List.drop_left]

/-- A part adds its events to the transcript of what follows it. -/
theorem Adds.parsed {place next : Place} {level after : Nat} {name name' : Option Bytes}
    {part : Bytes} {events : List (NarEvent Bytes)} {fields : List Nat}
    (adds : Adds place level name part events fields name' next after) (rest : Bytes) :
    parse name ⟨place.state, level⟩ (part ++ rest) =
      (parse name' ⟨next.state, after⟩ rest).after events fields := by
  obtain ⟨_, par, node⟩ := tokens_nonempty
  have par' : tokPar ≠ [] := List.ne_nil_of_length_pos par
  cases adds with
  | header nodeType =>
    have nonempty : nodeType.header ≠ [] := by cases nodeType <;> decide +kernel
    exact parse_shift InnerState.noConfusion nonempty (drive_header false nodeType level rest)
  | directory =>
    exact parse_stop InnerState.noConfusion (by decide +kernel) (drive_directory false level rest) rfl
  | target _ _ len payload sized fits =>
    obtain ⟨enough, small, bytes, behind⟩ := field_fits fits sized rest
    rw [List.append_assoc, Place.state, parse_body, Inner.found_symlink,
      Found.field_whole enough small, bytes, behind]
    rfl
  | contents nodeType file _ _ len payload sized fits =>
    obtain ⟨enough, _, bytes, behind⟩ := field_fits fits sized rest
    rw [calcAligned_fits fits] at enough behind
    rw [List.append_assoc, Place.state, parse_body, Inner.found_file file, if_neg (not_not.mpr fits),
      if_neg (Nat.not_lt.mpr enough), bytes, behind]
    rfl
  | closeRoot => exact parse_shift InnerState.noConfusion par' (drive_token rfl rest)
  | close level => exact parse_shift InnerState.noConfusion par' (drive_token rfl rest)
  | entry =>
    exact parse_shift InnerState.noConfusion (by decide +kernel) (drive_entry false level rest)
  | name _ _ len payload sized fits =>
    obtain ⟨enough, small, bytes, behind⟩ := field_fits fits sized rest
    rw [List.append_assoc, Place.state, parse_name, Inner.found_name,
      Found.field_whole enough small, bytes, behind]
    rfl
  | mark =>
    exact parse_shift InnerState.noConfusion (List.ne_nil_of_length_pos node) (drive_token rfl rest)
  | closeEntry => exact parse_shift InnerState.noConfusion par' (drive_token rfl rest)
  | closeRootDirectory =>
    exact parse_stop InnerState.noConfusion par' (drive_endDirectory false 1 rest) rfl
  | closeDirectory level =>
    have stopped := @parse_stop name _ _ _ _ _ InnerState.noConfusion par'
      (drive_endDirectory false (level + 2) rest) rfl
    rw [Place.state, stopped]
    simp [Inner.found, Found.transcript, Place.state]

/-! ## Where the parts stop -/

/-- How bytes can go on at a place: with a part, cut off, invalid, or with a length that does
not fit. -/
def Continues (place : Place) (level : Nat) (name : Option Bytes) (input : Bytes) : Prop :=
  (∃ part events fields name' next after rest,
      Adds place level name part events fields name' next after ∧ part ≠ [] ∧
      input = part ++ rest) ∨
    (∃ breach, (parse name ⟨place.state, level⟩ input).ending = .cut breach) ∨
    (∃ e, parse name ⟨place.state, level⟩ input = ⟨[], [], .invalid e⟩) ∨
    ((parse name ⟨place.state, level⟩ input).ending = .broken ∧ place.Measures ∧
      ∃ len, ¬ Fits len ∧ toLeBytes len <+: input)

/-- Bytes over which the automaton only waits are cut off. -/
theorem parse_waiting {name : Option Bytes} {inner s : Inner} {input : Bytes}
    (live : inner.state ≠ .eof) (ran : drive false inner input = .done s input.length)
    (waiting : ¬ Halted false s) : parse name inner input = ⟨[], [], .cut .markup⟩ := by
  by_cases none : input = []
  · subst none
    rw [parse_nil live, Inner.awaited_idle ran waiting]
  · have later := @parse_resume name inner s input live none ran waiting []
    have live' : s.state ≠ .eof := by
      intro ended
      apply waiting
      simp only [Halted, ended]
    rwa [List.append_nil, parse_nil live', Inner.awaited_waiting waiting] at later

/-- Bytes over which the automaton fails are cut off before it could, or invalid. -/
theorem parse_failing {name : Option Bytes} {inner s : Inner} {input : Bytes} {e : IoError}
    (live : inner.state ≠ .eof) (ran : drive false inner input = .fail s e) :
    (parse name inner input).ending = .cut .markup ∨
      parse name inner input = ⟨[], [], .invalid e⟩ := by
  by_cases none : input = []
  · subst none
    exact .inl (by rw [parse_nil live])
  · have later := @parse_failed name inner s input live none e ran []
    rw [List.append_nil] at later
    exact .inr later

/-- A place before a token. -/
theorem continues_token {wait : Nat → InnerState} {tok : Bytes} {state : InnerState}
    {place next : Place} {level after : Nat} {name name' : Option Bytes}
    {events : List (NarEvent Bytes)} {fields : List Nat}
    (turns : driveStep false ⟨place.state, level⟩ = readToken wait tok 0 state level)
    (live : place ≠ .finished) (idle : ∀ read, ¬ Halted false ⟨wait read, level⟩)
    (nonempty : 0 < tok.length) (adds : Adds place level name tok events fields name' next after)
    (input : Bytes) : Continues place level name input := by
  rcases token_ends turns input with ⟨rest, joined⟩ | ⟨tail, _, _, ran⟩ | ran
  · exact .inl ⟨tok, events, fields, name', next, after, rest, adds,
      List.ne_nil_of_length_pos nonempty, joined⟩
  · exact .inr (.inl ⟨.markup, by rw [parse_waiting (Place.state_live live) ran (idle _)]⟩)
  · rcases parse_failing (Place.state_live live) ran with cut | invalid
    · exact .inr (.inl ⟨.markup, cut⟩)
    · exact .inr (.inr (.inl ⟨_, invalid⟩))

/-- A place before one of several headers. -/
theorem continues_select {N E B : Nat} {tree : RTree N E B InnerState} {label : Nat → Bytes}
    {headers : List (Bytes × InnerState)} {wait : RLookup → InnerState} {error : IoError}
    {place : Place} {level : Nat} {name : Option Bytes} (offers : Offers tree label headers)
    (turns : driveStep false ⟨place.state, level⟩ = selectToken tree wait error default level)
    (live : place ≠ .finished) (idle : ∀ cursor, ¬ Halted false ⟨wait cursor, level⟩)
    (known : ∀ header ∈ headers, header ∈ nodeHeaders ++ entryHeaders)
    (adds : ∀ header ∈ headers, ∃ events fields name' next after,
      Adds place level name header.1 events fields name' next after)
    (input : Bytes) : Continues place level name input := by
  rcases select_ends offers turns input with ⟨header, listed, rest, joined⟩ | ⟨_, ran, _⟩ | ran
  · obtain ⟨events, fields, name', next, after, step⟩ := adds header listed
    have nonempty := headers_nonempty header (known header listed)
    exact .inl ⟨_, events, fields, name', next, after, rest, step,
      List.ne_nil_of_length_pos nonempty, joined⟩
  · exact .inr (.inl ⟨.markup, by rw [parse_waiting (Place.state_live live) ran (idle _)]⟩)
  · rcases parse_failing (Place.state_live live) ran with cut | invalid
    · exact .inr (.inl ⟨.markup, cut⟩)
    · exact .inr (.inr (.inl ⟨_, invalid⟩))

/-- A place before a field. -/
theorem continues_field {wait : Bytes → Nat → InnerState} {done : UInt64 → InnerState}
    {place : Place} {level : Nat} {name : Option Bytes} (measures : place.Measures)
    (turns : driveStep false ⟨place.state, level⟩ = readLen wait done zeros 0 level)
    (live : place ≠ .finished) (idle : ∀ value read, ¬ Halted false ⟨wait value read, level⟩)
    (short : ∀ len behind, Fits len → behind.length < codeAlign len →
      ∃ breach, (parse name ⟨place.state, level⟩ (toLeBytes len ++ behind)).ending = .cut breach)
    (breaks : ∀ len behind, ¬ Fits len →
      (parse name ⟨place.state, level⟩ (toLeBytes len ++ behind)).ending = .broken)
    (adds : ∀ len payload, Fits len → payload.length = codeAlign len → ∃ events fields name' next,
      Adds place level name (toLeBytes len ++ payload) events fields name' next level)
    (input : Bytes) : Continues place level name input := by
  by_cases few : input.length < 8
  · obtain ⟨value, turn⟩ := @readLen_short wait done level input few
    have ran : drive false ⟨place.state, level⟩ input = _ :=
      (drive_lawful false).run_stop (m := driveMachine false) ((congrFun turns input).trans turn)
    exact .inr (.inl ⟨.markup, by rw [parse_waiting (Place.state_live live) ran (idle _ _)]⟩)
  · have eight : (input.take 8).length = 8 := by rw [List.length_take]; omega
    have joined : input = toLeBytes (fromLeBytes (input.take 8)) ++ input.drop 8 := by
      rw [toLeBytes_fromLeBytes eight, List.take_append_drop]
    generalize fromLeBytes (input.take 8) = len at joined
    generalize input.drop 8 = behind at joined
    subst joined
    by_cases fits : Fits len
    · by_cases enough : codeAlign len ≤ behind.length
      · have sized : (behind.take (codeAlign len)).length = codeAlign len := by
          rw [List.length_take, Nat.min_eq_left enough]
        obtain ⟨events, fields, name', next, step⟩ := adds len _ fits sized
        refine .inl ⟨_, events, fields, name', next, level, behind.drop (codeAlign len), step,
          List.append_ne_nil_of_left_ne_nil (toLeBytes_ne_nil len) _, ?_⟩
        rw [List.append_assoc, List.take_append_drop]
      · exact .inr (.inl (short len behind fits (by omega)))
    · exact .inr (.inr (.inr ⟨breaks len behind fits, measures, len, fits,
        List.prefix_append _ _⟩))

/-- A field that does not fit breaks the transcript. -/
theorem Found.field_breaks {len : UInt64} (wraps : ¬ Fits len) (behind : Bytes) (more : Found) :
    Found.field len (calcAligned len) behind more = .last ⟨[], [], .broken⟩ := by
  have zero := calcAligned_wraps wraps
  have inside : calcAligned len < len := by
    rw [UInt64.lt_iff_toNat_lt, zero]
    unfold Fits at wraps
    omega
  rw [Found.field, if_neg (by omega), if_pos inside]

/-- Where a length is due, one that does not fit breaks the transcript. -/
theorem parse_breaks {place : Place} (measures : place.Measures) {len : UInt64} (wraps : ¬ Fits len)
    (name : Option Bytes) (level : Nat) (behind : Bytes) :
    (parse name ⟨place.state, level⟩ (toLeBytes len ++ behind)).ending = .broken := by
  cases place with
  | body nodeType =>
    rw [Place.state, parse_body]
    by_cases link : nodeType = .symlink
    · subst link
      rw [Inner.found_symlink, Found.field_breaks wraps]
      rfl
    · rw [Inner.found_file link, if_pos wraps]
      rfl
  | name =>
    rw [Place.state, parse_name, Inner.found_name, Found.field_breaks wraps]
    rfl
  | _ => exact measures.elim

/-- At every place before the end the bytes go on in one of the four ways. -/
theorem Place.continues (place : Place) (level : Nat) (live : place ≠ .finished)
    (opened : place = .entries → 0 < level) (name : Option Bytes) (input : Bytes) :
    Continues place level name input := by
  obtain ⟨_, par, node⟩ := tokens_nonempty
  cases place with
  | node =>
    refine continues_select nodeSelect_offers rfl live (fun _ => id)
      (fun _ => List.mem_append_left _) ?_ input
    intro header listed
    simp only [nodeHeaders, List.mem_cons, List.not_mem_nil, or_false] at listed
    rcases listed with rfl | rfl | rfl | rfl
    · exact ⟨_, _, _, _, _, .directory level name⟩
    · exact ⟨_, _, _, _, _, .header .symlink level name⟩
    · exact ⟨_, _, _, _, _, .header .file level name⟩
    · exact ⟨_, _, _, _, _, .header .executableFile level name⟩
  | body nodeType =>
    have turns : driveStep false ⟨(Place.body nodeType).state, level⟩ =
        readLen (.readContentsLen nodeType)
          (fun len => .readContents nodeType len (calcAligned len)) zeros 0 level := rfl
    have measures : (Place.body nodeType).Measures := trivial
    refine continues_field measures turns live (fun _ _ => id) ?_ ?_ ?_ input
    · intro len behind fits short
      unfold codeAlign at short
      rw [Place.state, parse_body]
      by_cases link : nodeType = .symlink
      · subst link
        rw [Inner.found_symlink, Found.field, if_pos short]
        exact ⟨_, rfl⟩
      · rw [calcAligned_fits fits] at short
        rw [Inner.found_file link, if_neg (not_not.mpr fits), if_pos short]
        exact ⟨_, rfl⟩
    · intro len behind wraps
      exact parse_breaks measures wraps name level behind
    · intro len payload fits sized
      by_cases link : nodeType = .symlink
      · subst link
        exact ⟨_, _, _, _, .target level name len payload sized fits⟩
      · exact ⟨_, _, _, _, .contents nodeType link level name len payload sized fits⟩
  | close =>
    have idle (read : Nat) : ¬ Halted false ⟨.finishNode read, level⟩ := id
    cases level with
    | zero => exact continues_token rfl live idle par (.closeRoot name) input
    | succ level => exact continues_token rfl live idle par (.close level name) input
  | entries =>
    refine continues_select entrySelect_offers rfl live (fun _ => id)
      (fun _ => List.mem_append_right _) ?_ input
    intro header listed
    simp only [entryHeaders, List.mem_cons, List.not_mem_nil, or_false] at listed
    rcases listed with rfl | rfl
    · exact ⟨_, _, _, _, _, .entry level name⟩
    · have positive := opened rfl
      obtain rfl | ⟨below, rfl⟩ : level = 1 ∨ ∃ below, level = below + 2 := by
        by_cases one : level = 1
        · exact .inl one
        · exact .inr ⟨level - 2, by omega⟩
      · exact ⟨_, _, _, _, _, .closeRootDirectory name⟩
      · exact ⟨_, _, _, _, _, .closeDirectory below name⟩
  | name =>
    have turns : driveStep false ⟨Place.name.state, level⟩ = readLen .readEntryNameLen
        (fun len => .readEntryName len (calcAligned len)) zeros 0 level := rfl
    have measures : Place.name.Measures := trivial
    refine continues_field measures turns live (fun _ _ => id) ?_ ?_ ?_ input
    · intro len behind fits short
      unfold codeAlign at short
      rw [Place.state, parse_name, Inner.found_name, Found.field, if_pos short]
      exact ⟨_, rfl⟩
    · intro len behind wraps
      exact parse_breaks measures wraps name level behind
    · exact fun len payload fits sized => ⟨_, _, _, _, .name level name len payload sized fits⟩
  | mark => exact continues_token rfl live (fun _ => id) node (.mark level name) input
  | closeEntry => exact continues_token rfl live (fun _ => id) par (.closeEntry level name) input
  | finished => exact absurd rfl live

/-! ## Whole archives -/

/-- The parts from a place to the end, with what they add. -/
inductive Story : Place → Nat → Option Bytes → Bytes → List (NarEvent Bytes) → List Nat → Prop
  | finished (level : Nat) (name : Option Bytes) : Story .finished level name [] [] []
  | part {place next : Place} {level after : Nat} {name name' : Option Bytes}
    {bytes rest : Bytes} {events events' : List (NarEvent Bytes)} {fields fields' : List Nat}
    (adds : Adds place level name bytes events fields name' next after)
    (later : Story next after name' rest events' fields') :
    Story place level name (bytes ++ rest) (events ++ events') (fields ++ fields')

/-- The transcript of a story ends behind it. -/
theorem Story.parsed {place : Place} {level : Nat} {name : Option Bytes} {bytes : Bytes}
    {events : List (NarEvent Bytes)} {fields : List Nat}
    (story : Story place level name bytes events fields) (rest : Bytes) :
    parse name ⟨place.state, level⟩ (bytes ++ rest) = ⟨events, fields, .clean rest⟩ := by
  induction story with
  | finished level name => exact parse_eof name level rest
  | part adds later ih => rw [List.append_assoc, adds.parsed, ih, Transcript.after]

/-- A story leads to the end of the archive. -/
theorem Story.reads {place : Place} {level : Nat} {name : Option Bytes} {bytes word : Bytes}
    {events : List (NarEvent Bytes)} {fields : List Nat}
    (story : Story place level name bytes events fields)
    (before : Reads codeAlign word place level) :
    ∃ after, Reads codeAlign (word ++ bytes) .finished after := by
  induction story generalizing word with
  | finished level name => exact ⟨level, by rwa [List.append_nil]⟩
  | part adds later ih =>
    rw [← List.append_assoc]
    exact ih (before.more adds.part)

/-- A transcript with a clean ending is a story. -/
theorem Reads.story {word : Bytes} {place : Place} {level : Nat}
    (reads : Reads codeAlign word place level) {name : Option Bytes} {input rest : Bytes}
    (clean : (parse name ⟨place.state, level⟩ input).ending = .clean rest) :
    ∃ bytes events fields, input = bytes ++ rest ∧ Story place level name bytes events fields := by
  induction size : input.length using Nat.strongRecOn generalizing word place level name input with
  | ind total ih =>
    by_cases live : place = .finished
    · subst live
      rw [Place.state, parse_eof, Ending.clean.injEq] at clean
      exact ⟨[], [], [], clean, .finished level name⟩
    · have opened (inside : place = .entries) : 0 < level := reads.opened (.inl inside)
      rcases place.continues level live opened name input with
        ⟨part, events, fields, name', next, after, behind, adds, nonempty, rfl⟩ | ⟨_, cut⟩ |
          ⟨e, invalid⟩ | ⟨broken, _⟩
      · rw [adds.parsed] at clean
        have shorter : behind.length < total := by
          have := List.length_pos_of_ne_nil nonempty
          rw [List.length_append] at size
          omega
        obtain ⟨bytes, events', fields', rfl, later⟩ :=
          ih behind.length shorter (reads.more adds.part) clean rfl
        exact ⟨part ++ bytes, events ++ events', fields ++ fields', by rw [List.append_assoc],
          .part adds later⟩
      · rw [cut] at clean
        cases clean
      · rw [invalid] at clean
        cases clean
      · rw [broken] at clean
        cases clean

/-- A transcript is broken only by a length that does not fit. -/
theorem Reads.unbroken {word : Bytes} {place : Place} {level : Nat}
    (reads : Reads codeAlign word place level) {input : Bytes}
    (fits : ¬ Oversized codeAlign (word ++ input)) (name : Option Bytes) :
    (parse name ⟨place.state, level⟩ input).ending ≠ .broken := by
  induction size : input.length using Nat.strongRecOn generalizing word place level name input with
  | ind total ih =>
    by_cases live : place = .finished
    · subst live
      rw [Place.state, parse_eof]
      exact Ending.noConfusion
    · have opened (inside : place = .entries) : 0 < level := reads.opened (.inl inside)
      rcases place.continues level live opened name input with
        ⟨part, events, fields, name', next, after, behind, adds, nonempty, rfl⟩ | ⟨_, cut⟩ |
          ⟨e, invalid⟩ | ⟨_, measures, len, wraps, starts⟩
      · rw [adds.parsed]
        have shorter : behind.length < total := by
          have := List.length_pos_of_ne_nil nonempty
          rw [List.length_append] at size
          omega
        refine ih behind.length shorter (reads.more adds.part) ?_ name' rfl
        rwa [List.append_assoc]
      · rw [cut]
        exact Ending.noConfusion
      · rw [invalid]
        exact Ending.noConfusion
      · exact absurd ⟨word, place, level, len, reads, measures, wraps,
          (List.prefix_append_right_inj word).mpr starts⟩ fits

/-- The beginning of an archive: the first token, cut off, or invalid. -/
theorem parse_start (input : Bytes) :
    (∃ rest, input = tokRoot ++ rest ∧
        parse none .start input = parse none ⟨Place.node.state, 0⟩ rest) ∨
      (parse none .start input).ending = .cut .markup ∨
      (∃ e, parse none .start input = ⟨[], [], .invalid e⟩) := by
  have root : tokRoot ≠ [] := List.ne_nil_of_length_pos tokens_nonempty.1
  have turns : driveStep false .start = readToken .root tokRoot 0 (.selectNode default) 0 := rfl
  rcases token_ends turns input with ⟨rest, rfl⟩ | ⟨tail, _, _, ran⟩ | ran
  · exact .inl ⟨rest, rfl, parse_shift InnerState.noConfusion root (drive_token turns rest)⟩
  · exact .inr (.inl (by rw [parse_waiting InnerState.noConfusion ran id]))
  · rcases @parse_failing none .start _ input _ InnerState.noConfusion ran with cut | invalid
    · exact .inr (.inl cut)
    · exact .inr (.inr ⟨_, invalid⟩)

/-- An archive with a clean ending is its first token and a story. -/
theorem parse_clean {input rest : Bytes} (clean : (parse none .start input).ending = .clean rest) :
    ∃ bytes events fields, input = tokRoot ++ bytes ++ rest ∧
      Story .node 0 none bytes events fields := by
  rcases parse_start input with ⟨behind, rfl, same⟩ | cut | ⟨e, invalid⟩
  · rw [same] at clean
    obtain ⟨bytes, events, fields, rfl, story⟩ := Reads.start.story clean
    exact ⟨bytes, events, fields, by rw [List.append_assoc], story⟩
  · rw [cut] at clean
    cases clean
  · rw [invalid] at clean
    cases clean

/-- A story behind the first token is told from the start. -/
theorem Story.archive {bytes : Bytes} {events : List (NarEvent Bytes)} {fields : List Nat}
    (story : Story .node 0 none bytes events fields) (rest : Bytes) :
    parse none .start (tokRoot ++ bytes ++ rest) = ⟨events, fields, .clean rest⟩ := by
  have root : tokRoot ≠ [] := List.ne_nil_of_length_pos tokens_nonempty.1
  have turns : driveStep false .start = readToken .root tokRoot 0 (.selectNode default) 0 := rfl
  rw [List.append_assoc, ← story.parsed rest]
  exact parse_shift InnerState.noConfusion root (drive_token turns _)

/-- Without a length that does not fit the transcript is not broken. -/
theorem parse_unbroken {input : Bytes} (fits : ¬ Oversized codeAlign input) :
    (parse none .start input).ending ≠ .broken := by
  rcases parse_start input with ⟨behind, rfl, same⟩ | cut | ⟨e, invalid⟩
  · rw [same]
    exact Reads.start.unbroken fits none
  · rw [cut]
    exact Ending.noConfusion
  · rw [invalid]
    exact Ending.noConfusion

/-- The parts up to a place, with what they add. -/
inductive Begins : Bytes → Place → Nat → Option Bytes → List (NarEvent Bytes) → List Nat → Prop
  | start : Begins tokRoot .node 0 none [] []
  | more {word bytes : Bytes} {place next : Place} {level after : Nat} {name name' : Option Bytes}
    {events events' : List (NarEvent Bytes)} {fields fields' : List Nat}
    (before : Begins word place level name events fields)
    (adds : Adds place level name bytes events' fields' name' next after) :
    Begins (word ++ bytes) next after name' (events ++ events') (fields ++ fields')

/-- The parts up to a place are read. -/
theorem Begins.reads {word : Bytes} {place : Place} {level : Nat} {name : Option Bytes}
    {events : List (NarEvent Bytes)} {fields : List Nat}
    (begins : Begins word place level name events fields) : Reads codeAlign word place level := by
  induction begins with
  | start => exact .start
  | more before adds ih => exact ih.more adds.part

/-- The transcript of the bytes up to a place, and then from it. -/
theorem Begins.parsed {word : Bytes} {place : Place} {level : Nat} {name : Option Bytes}
    {events : List (NarEvent Bytes)} {fields : List Nat}
    (begins : Begins word place level name events fields) (rest : Bytes) :
    parse none .start (word ++ rest) =
      (parse name ⟨place.state, level⟩ rest).after events fields := by
  induction begins generalizing rest with
  | start =>
    have root : tokRoot ≠ [] := List.ne_nil_of_length_pos tokens_nonempty.1
    have turns : driveStep false .start = readToken .root tokRoot 0 (.selectNode default) 0 := rfl
    exact parse_shift InnerState.noConfusion root (drive_token turns rest)
  | more before adds ih => rw [List.append_assoc, ih, adds.parsed, Transcript.after_after]

/-- Bytes without a length that does not fit begin an archive. -/
theorem Reads.begins {word : Bytes} {place : Place} {level : Nat}
    (reads : Reads codeAlign word place level) (fits : ¬ Oversized codeAlign word) :
    ∃ name events fields, Begins word place level name events fields := by
  induction reads with
  | start => exact ⟨_, _, _, .start⟩
  | @more word part place next level after before step ih =>
    obtain ⟨name, events, fields, begins⟩ :=
      ih fun past => fits (past.mono (List.prefix_append word part))
    have small (len : UInt64) (measures : place.Measures) (starts : toLeBytes len <+: part) :
        Fits len := by
      by_contra wraps
      exact fits ⟨word, place, level, len, before, measures, wraps,
        (List.prefix_append_right_inj word).mpr starts⟩
    obtain ⟨events', fields', name', adds⟩ := step.adds small name
    exact ⟨_, _, _, begins.more adds⟩

/-- With a length that does not fit the transcript is broken. -/
theorem Oversized.broken {input : Bytes} (past : Oversized codeAlign input) :
    (parse none .start input).ending = .broken := by
  obtain ⟨word, place, level, len, reads, measures, wraps, starts⟩ := past
  induction size : word.length using Nat.strongRecOn generalizing word place level len with
  | ind total ih =>
    by_cases before : Oversized codeAlign word
    · -- the first such length is the one that is met
      obtain ⟨word', place', level', len', reads', measures', wraps', starts'⟩ := before
      have shorter := starts'.length_le
      rw [List.length_append, toLeBytes_length] at shorter
      have within := (starts'.trans (List.prefix_append word (toLeBytes len))).trans starts
      exact ih word'.length (by omega) word' place' level' len' reads' measures' wraps' within rfl
    · obtain ⟨name, events, fields, begins⟩ := reads.begins before
      obtain ⟨rest, rfl⟩ := starts
      rw [List.append_assoc, begins.parsed]
      exact parse_breaks measures wraps name level rest

/-- An archive with a clean ending has no length that does not fit. -/
theorem Begins.not_oversized {word : Bytes} {level : Nat} {name : Option Bytes}
    {events : List (NarEvent Bytes)} {fields : List Nat}
    (begins : Begins word .finished level name events fields) (rest : Bytes) :
    ¬ Oversized fieldAlign (word ++ rest) := by
  intro past
  have broken := (past.transfer fun fits => (codeAlign_eq fits).symm).broken
  rw [begins.parsed, Place.state, parse_eof] at broken
  cases broken

/-- A part that fits in a short input has a length that fits. -/
theorem Part.fits {place next : Place} {level after : Nat} {part : Bytes}
    (step : Part fieldAlign place level part next after) (small : part.length < 2 ^ 64)
    {len : UInt64} (measures : place.Measures) (starts : toLeBytes len <+: part) : Fits len := by
  have field {other : UInt64} {payload : Bytes} (sized : payload.length = fieldAlign other)
      (small : (toLeBytes other ++ payload).length < 2 ^ 64)
      (starts : toLeBytes len <+: toLeBytes other ++ payload) : Fits len := by
    have same : toLeBytes len = toLeBytes other := by
      have eight : (toLeBytes len).length = (toLeBytes other).length := by
        rw [toLeBytes_length, toLeBytes_length]
      exact (List.prefix_of_prefix_length_le starts (List.prefix_append _ _) eight.le).eq_of_length
        eight
    have equal : len = other := by
      rw [← fromLeBytes_toLeBytes len, same, fromLeBytes_toLeBytes]
    by_contra wraps
    have large := fieldAlign_wraps (equal ▸ wraps)
    rw [List.length_append] at small
    omega
  cases step with
  | body nodeType _ other payload sized => exact field sized small starts
  | name _ other payload sized => exact field sized small starts
  | _ => exact measures.elim

/-- Bytes fewer than a machine word can count begin an archive. -/
theorem Reads.begins_short {word : Bytes} {place : Place} {level : Nat}
    (reads : Reads fieldAlign word place level) (small : word.length < 2 ^ 64) :
    ∃ name events fields, Begins word place level name events fields := by
  induction reads with
  | start => exact ⟨_, _, _, .start⟩
  | more before step ih =>
    rw [List.length_append] at small
    obtain ⟨name, events, fields, begins⟩ := ih (by omega)
    have short : _ < 2 ^ 64 := Nat.lt_of_le_of_lt (Nat.le_add_left _ _) small
    obtain ⟨events', fields', name', adds⟩ :=
      (step.short short).adds (fun len measures => step.fits short measures) name
    exact ⟨_, _, _, begins.more adds⟩

/-- The archive of a directory that holds a file of three bytes and a symbolic link to it. -/
def smallArchive : Bytes :=
  tokRoot ++ tokDir ++ tokEntry ++ (toLeBytes 1 ++ [0x61, 0, 0, 0, 0, 0, 0, 0]) ++ tokNode ++ tokFile ++
    (toLeBytes 3 ++ [1, 2, 3, 0, 0, 0, 0, 0]) ++ tokPar ++ tokPar ++ tokEntry ++
    (toLeBytes 1 ++ [0x62, 0, 0, 0, 0, 0, 0, 0]) ++ tokNode ++ tokSym ++
    (toLeBytes 1 ++ [0x61, 0, 0, 0, 0, 0, 0, 0]) ++ tokPar ++ tokPar ++ tokPar

/-- The parts of that archive and what they add. -/
theorem smallArchive_begins :
    Begins smallArchive .finished 1 none
      [.startDirectory [], .file [0x61] false 3 [1, 2, 3], .symlink [0x62] [0x61], .endDirectory]
      [8, 8, 8] := by
  have opened := (((Begins.start.more (.directory 0 none)).more (.entry 1 none)).more
    (.name 1 none 1 [0x61, 0, 0, 0, 0, 0, 0, 0] (by decide) (by decide))).more (.mark 1 _)
  have file := ((opened.more (.header .file 1 _)).more
    (.contents .file NodeType.noConfusion 1 _ 3 [1, 2, 3, 0, 0, 0, 0, 0] (by decide) (by decide))).more
    (.close 0 none)
  have linked := (((file.more (.closeEntry 1 none)).more (.entry 1 none)).more
    (.name 1 none 1 [0x62, 0, 0, 0, 0, 0, 0, 0] (by decide) (by decide))).more (.mark 1 _)
  have link := ((linked.more (.header .symlink 1 _)).more
    (.target 1 _ 1 [0x61, 0, 0, 0, 0, 0, 0, 0] (by decide) (by decide))).more (.close 0 none)
  exact (link.more (.closeEntry 1 none)).more (.closeRootDirectory none)

end Harmonia.Nar
