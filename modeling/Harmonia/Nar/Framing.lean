import Mathlib.Data.List.Basic
import Mathlib.Algebra.Order.Ring.Nat
import Harmonia.Nar.Drive

/-!
# What the framing automaton recognises

Between its tokens and fields an archive stands at a place: before a node's type, before a
length, before a parenthesis, inside a directory. `Part` lists the strings that lead from one
place to the next, with the number of open directories, and `Reads` strings them together
from the beginning of an archive. The automaton with `P` follows `Part` step by step; where
the input leaves it, the automaton waits or fails.
-/

namespace Harmonia.Nar

open Library

/-- Where an archive stands between two of its parts. -/
inductive Place where
  /-- Before the type of a node. -/
  | node
  /-- Before the length of contents or of a target. -/
  | body (nodeType : NodeType)
  /-- Before the parenthesis that ends a file or a symbolic link. -/
  | close
  /-- Inside a directory, between entries. -/
  | entries
  /-- Before the length of an entry's name. -/
  | name
  /-- Between an entry's name and its node. -/
  | mark
  /-- Before the parenthesis that ends an entry. -/
  | closeEntry
  /-- Behind the archive. -/
  | finished
  deriving DecidableEq, Repr

/-- The header of a node with a length-prefixed body. -/
def NodeType.header : NodeType → Bytes
  | .file => tokFile
  | .executableFile => tokFileE
  | .symlink => tokSym

/-- The parts of an archive: the bytes that lead from a place to the next, with the number of
directories open before and after. A field is its length and as many bytes as `align` asks. -/
inductive Part (align : UInt64 → Nat) : Place → Nat → Bytes → Place → Nat → Prop
  | header (nodeType : NodeType) (level : Nat) :
    Part align .node level nodeType.header (.body nodeType) level
  | directory (level : Nat) : Part align .node level tokDir .entries (level + 1)
  | body (nodeType : NodeType) (level : Nat) (len : UInt64) (payload : Bytes)
    (sized : payload.length = align len) :
    Part align (.body nodeType) level (toLeBytes len ++ payload) .close level
  | closeRoot : Part align .close 0 tokPar .finished 0
  | close (level : Nat) : Part align .close (level + 1) tokPar .closeEntry (level + 1)
  | entry (level : Nat) : Part align .entries level tokEntry .name level
  | name (level : Nat) (len : UInt64) (payload : Bytes) (sized : payload.length = align len) :
    Part align .name level (toLeBytes len ++ payload) .mark level
  | mark (level : Nat) : Part align .mark level tokNode .node level
  | closeEntry (level : Nat) : Part align .closeEntry level tokPar .entries level
  | closeRootDirectory : Part align .entries 1 tokPar .finished 1
  | closeDirectory (level : Nat) :
    Part align .entries (level + 2) tokPar .closeEntry (level + 1)

/-- The bytes that lead from the beginning of an archive to a place. -/
inductive Reads (align : UInt64 → Nat) : Bytes → Place → Nat → Prop
  | start : Reads align tokRoot .node 0
  | more {word part : Bytes} {place next : Place} {level after : Nat}
    (before : Reads align word place level) (step : Part align place level part next after) :
    Reads align (word ++ part) next after

/-- The alignment of the code: `calc_aligned`, with its wrap-around. -/
def codeAlign (len : UInt64) : Nat := (calcAligned len).toNat

/-- The state of the automaton at a place. -/
def Place.state : Place → InnerState
  | .node => .selectNode default
  | .body nodeType => .readContentsLen nodeType zeros 0
  | .close => .finishNode 0
  | .entries => .readEntries default
  | .name => .readEntryNameLen zeros 0
  | .mark => .readNode 0
  | .closeEntry => .finishEntry 0
  | .finished => .eof

/-! ## The automaton follows the parts -/

/-- A whole token is read and the automaton goes on behind it. -/
theorem drive_token {P : Bool} {wait : Nat → InnerState} {tok : Bytes} {next : InnerState}
    {level : Nat} {inner : Inner} (turns : driveStep P inner = readToken wait tok 0 next level)
    (rest : Bytes) :
    drive P inner (tok ++ rest) = (drive P ⟨next, level⟩ rest).shift tok.length := by
  have turn : driveStep P inner (tok ++ rest) = .again ⟨next, level⟩ tok.length := by
    rw [turns, readToken_eq wait (Nat.zero_le _), List.drop_zero,
      if_pos (List.prefix_append tok rest), Nat.sub_zero]
  have ran := (drive_lawful P).run_again (m := driveMachine P) turn
  rwa [List.drop_left] at ran

/-- A whole header is selected and the automaton goes on behind it. -/
theorem drive_select {P : Bool} {N E B : Nat} {tree : RTree N E B InnerState}
    {label : Nat → Bytes} {headers : List (Bytes × InnerState)} {wait : RLookup → InnerState}
    {error : IoError} {level : Nat} {inner : Inner} (offers : Offers tree label headers)
    (turns : driveStep P inner = selectToken tree wait error default level)
    {header : Bytes × InnerState} (listed : header ∈ headers) (rest : Bytes) :
    drive P inner (header.1 ++ rest) =
      (drive P ⟨header.2, level⟩ rest).shift header.1.length := by
  have turn : driveStep P inner (header.1 ++ rest) = .again ⟨header.2, level⟩ header.1.length := by
    rw [turns, offers.select listed]
  have ran := (drive_lawful P).run_again (m := driveMachine P) turn
  rwa [List.drop_left] at ran

/-- Eight bytes are taken as a length. -/
theorem readLen_word {wait : Bytes → Nat → InnerState} {done : UInt64 → InnerState}
    {level : Nat} (len : UInt64) (rest : Bytes) :
    readLen wait done zeros 0 level (toLeBytes len ++ rest) = .again ⟨done len, level⟩ 8 := by
  have eight := toLeBytes_length len
  have count : min (toLeBytes len ++ rest).length (8 - 0) = 8 := by
    rw [List.length_append, eight]
    omega
  have taken : (toLeBytes len ++ rest).take 8 = toLeBytes len := by
    rw [← eight, List.take_left]
  have room : zeros.length = 8 := rfl
  have nothing : zeros.drop 8 = [] := rfl
  simp only [readLen, count, taken, room, nothing, Nat.zero_add, List.take_zero, List.nil_append,
    List.append_nil, fromLeBytes_toLeBytes]
  rw [if_neg (by omega), if_neg (by omega)]

/-- A length is read and the automaton goes on behind it. -/
theorem drive_word {P : Bool} {wait : Bytes → Nat → InnerState} {done : UInt64 → InnerState}
    {level : Nat} {inner : Inner} (turns : driveStep P inner = readLen wait done zeros 0 level)
    (len : UInt64) (rest : Bytes) :
    drive P inner (toLeBytes len ++ rest) = (drive P ⟨done len, level⟩ rest).shift 8 := by
  have turn : driveStep P inner (toLeBytes len ++ rest) = .again ⟨done len, level⟩ 8 := by
    rw [turns, readLen_word]
  have ran := (drive_lawful P).run_again (m := driveMachine P) turn
  have eight := toLeBytes_length len
  have behind : (toLeBytes len ++ rest).drop 8 = rest := by rw [← eight, List.drop_left]
  rwa [behind] at ran

/-- With `P` the aligned bytes of a field are passed over. -/
theorem drive_payload {wait : UInt64 → InnerState} {next : InnerState} {rem : UInt64}
    {level : Nat} {inner : Inner} (turns : driveStep true inner = skipBytes wait next rem level)
    {payload : Bytes} (sized : payload.length = rem.toNat) (rest : Bytes) :
    drive true inner (payload ++ rest) =
      (drive true ⟨next, level⟩ rest).shift payload.length := by
  have turn : driveStep true inner (payload ++ rest) = .again ⟨next, level⟩ payload.length := by
    rw [turns, skipBytes, if_neg (by rw [List.length_append]; omega), sized]
  have ran := (drive_lawful true).run_again (m := driveMachine true) turn
  rwa [List.drop_left] at ran

/-- With `P` the automaton takes a state that needs no bytes at once. -/
theorem drive_bump {inner next : Inner} (turn : ∀ buf, driveStep true inner buf = .again next 0)
    (rest : Bytes) : drive true inner rest = drive true next rest := by
  have ran := (drive_lawful true).run_again (m := driveMachine true) (turn rest)
  rwa [List.drop_zero, Run.shift_zero] at ran

/-- A header among the four leads to its state. -/
theorem drive_header (P : Bool) (nodeType : NodeType) (level : Nat) (rest : Bytes) :
    drive P ⟨.selectNode default, level⟩ (nodeType.header ++ rest) =
      (drive P ⟨.readContentsLen nodeType zeros 0, level⟩ rest).shift nodeType.header.length := by
  have listed : (nodeType.header, InnerState.readContentsLen nodeType zeros 0) ∈ nodeHeaders := by
    cases nodeType <;> simp [nodeHeaders, NodeType.header]
  exact drive_select nodeSelect_offers rfl listed rest

/-- The header of a directory leads into it. -/
theorem drive_directory (P : Bool) (level : Nat) (rest : Bytes) :
    drive P ⟨.selectNode default, level⟩ (tokDir ++ rest) =
      (drive P ⟨.readDir, level⟩ rest).shift tokDir.length := by
  have listed : (tokDir, InnerState.readDir) ∈ nodeHeaders := by simp [nodeHeaders]
  exact drive_select nodeSelect_offers rfl listed rest

/-- An entry's header leads to its name. -/
theorem drive_entry (P : Bool) (level : Nat) (rest : Bytes) :
    drive P ⟨.readEntries default, level⟩ (tokEntry ++ rest) =
      (drive P ⟨.readEntryNameLen zeros 0, level⟩ rest).shift tokEntry.length := by
  have listed : (tokEntry, InnerState.readEntryNameLen zeros 0) ∈ entryHeaders := by
    simp [entryHeaders]
  exact drive_select entrySelect_offers rfl listed rest

/-- A parenthesis leads to the end of a directory. -/
theorem drive_endDirectory (P : Bool) (level : Nat) (rest : Bytes) :
    drive P ⟨.readEntries default, level⟩ (tokPar ++ rest) =
      (drive P ⟨.finishReadEntry, level⟩ rest).shift tokPar.length := by
  have listed : (tokPar, InnerState.finishReadEntry) ∈ entryHeaders := by simp [entryHeaders]
  exact drive_select entrySelect_offers rfl listed rest

/-- A length word leads to the body it announces. -/
theorem drive_bodyLen (P : Bool) (nodeType : NodeType) (level : Nat) (len : UInt64)
    (rest : Bytes) :
    drive P ⟨.readContentsLen nodeType zeros 0, level⟩ (toLeBytes len ++ rest) =
      (drive P ⟨.readContents nodeType len (calcAligned len), level⟩ rest).shift 8 := by
  have turns : driveStep P ⟨.readContentsLen nodeType zeros 0, level⟩ =
      readLen (.readContentsLen nodeType)
        (fun len => .readContents nodeType len (calcAligned len)) zeros 0 level := rfl
  exact drive_word turns len rest

/-- A length word leads to the name it announces. -/
theorem drive_nameLen (P : Bool) (level : Nat) (len : UInt64) (rest : Bytes) :
    drive P ⟨.readEntryNameLen zeros 0, level⟩ (toLeBytes len ++ rest) =
      (drive P ⟨.readEntryName len (calcAligned len), level⟩ rest).shift 8 := by
  have turns : driveStep P ⟨.readEntryNameLen zeros 0, level⟩ =
      readLen .readEntryNameLen (fun len => .readEntryName len (calcAligned len)) zeros 0
        level := rfl
  exact drive_word turns len rest

/-- The automaton with `P` reads any part and stands at the next place. -/
theorem Part.followed {place next : Place} {level after : Nat} {part : Bytes}
    (step : Part codeAlign place level part next after) (rest : Bytes) :
    drive true ⟨place.state, level⟩ (part ++ rest) =
      (drive true ⟨next.state, after⟩ rest).shift part.length := by
  cases step with
  | header nodeType => exact drive_header true nodeType level rest
  | directory =>
    rw [Place.state, drive_directory]
    exact congrArg (Run.shift _) (drive_bump (fun _ => rfl) rest)
  | body nodeType _ len payload sized =>
    have turns : driveStep true ⟨.readContents nodeType len (calcAligned len), level⟩ =
        skipBytes (.readContents nodeType len) (.finishNode 0) (calcAligned len) level := rfl
    have skipped := drive_payload turns sized rest
    rw [Place.state, List.append_assoc, drive_bodyLen, skipped, Run.shift_shift,
      List.length_append, toLeBytes_length]
    rfl
  | closeRoot => exact drive_token rfl rest
  | close level => exact drive_token rfl rest
  | entry => exact drive_entry true level rest
  | name _ len payload sized =>
    have turns : driveStep true ⟨.readEntryName len (calcAligned len), level⟩ =
        skipBytes (.readEntryName len) (.readNode 0) (calcAligned len) level := rfl
    have skipped := drive_payload turns sized rest
    rw [Place.state, List.append_assoc, drive_nameLen, skipped, Run.shift_shift,
      List.length_append, toLeBytes_length]
    rfl
  | mark => exact drive_token rfl rest
  | closeEntry => exact drive_token rfl rest
  | closeRootDirectory =>
    rw [Place.state, drive_endDirectory]
    exact congrArg (Run.shift _) (drive_bump (fun _ => rfl) rest)
  | closeDirectory level =>
    have bumped : ∀ buf, driveStep true ⟨.finishReadEntry, level + 2⟩ buf =
        .again ⟨.finishEntry 0, level + 1⟩ 0 := fun _ => by
      simp [driveStep, bumpAgain, Inner.bumpState]
    rw [Place.state, drive_endDirectory]
    exact congrArg (Run.shift _) (drive_bump bumped rest)

/-- The automaton with `P` reads the beginning of an archive and stands at its place. -/
theorem Reads.followed {word : Bytes} {place : Place} {level : Nat}
    (reads : Reads codeAlign word place level) (rest : Bytes) :
    drive true .start (word ++ rest) =
      (drive true ⟨place.state, level⟩ rest).shift word.length := by
  induction reads generalizing rest with
  | start => exact drive_token rfl rest
  | more before step ih =>
    rw [List.append_assoc, ih, step.followed, Run.shift_shift, List.length_append]

/-! ## Where the input leaves the parts -/

/-- At a token: the input starts with it, ends inside it, or is invalid. -/
theorem token_ends {P : Bool} {wait : Nat → InnerState} {tok : Bytes} {next : InnerState}
    {level : Nat} {inner : Inner} (turns : driveStep P inner = readToken wait tok 0 next level)
    (input : Bytes) :
    (∃ rest, input = tok ++ rest) ∨
      (∃ tail, tail ≠ [] ∧ tok = input ++ tail ∧
        drive P inner input = .done ⟨wait input.length, level⟩ input.length) ∨
      drive P inner input = .fail inner invalidDataInNar := by
  have known := readToken_eq wait (Nat.zero_le tok.length) next level input
  rw [← turns, List.drop_zero] at known
  by_cases starts : tok <+: input
  · obtain ⟨rest, joined⟩ := starts
    exact .inl ⟨rest, joined.symm⟩
  · rw [if_neg starts] at known
    by_cases inside : input <+: tok
    · rw [if_pos inside, Nat.zero_add] at known
      obtain ⟨tail, joined⟩ := inside
      have nonempty : tail ≠ [] := by
        rintro rfl
        rw [List.append_nil] at joined
        exact starts (joined ▸ List.prefix_rfl)
      exact .inr (.inl ⟨tail, nonempty, joined.symm,
        (drive_lawful P).run_stop (m := driveMachine P) known⟩)
    · rw [if_neg inside] at known
      exact .inr (.inr ((drive_lawful P).run_fail (m := driveMachine P) known))

section Selection

variable {N E B : Nat} {tree : RTree N E B InnerState} {label : Nat → Bytes}
  {headers : List (Bytes × InnerState)} {wait : RLookup → InnerState} {error : IoError}
  {level : Nat}

/-- From a cursor of the tree a selection is made, waits at a cursor of the tree, or fails. -/
theorem Offers.verdict (offers : Offers tree label headers) {state : RLookup} {word : Bytes}
    (stands : tree.Stands label state word) (buf : Bytes) :
    (∃ header ∈ headers, ∃ n,
        selectToken tree wait error state level buf = .again ⟨header.2, level⟩ n) ∨
      (∃ next, tree.Stands label next (word ++ buf) ∧
        selectToken tree wait error state level buf = .stop ⟨wait next, level⟩ buf.length) ∨
      selectToken tree wait error state level buf = .fail error := by
  obtain ⟨⟨found, cursor⟩, looked, sound⟩ :=
    RTree.lookup_sound offers.selects.labelled buf stands 0
  cases found with
  | matched read =>
    obtain ⟨idx, value, _, rfl, leaf, _⟩ := sound
    obtain ⟨header, listed, _, valued⟩ := offers.header_of_leaf (RTree.mem_leaves.mpr ⟨value, leaf⟩)
    exact .inl ⟨header, listed, read, by simp only [selectToken, looked, valued]⟩
  | needsMore => exact .inr (.inl ⟨cursor, sound.1, by simp only [selectToken, looked]⟩)
  | mismatch read => exact .inr (.inr (by simp only [selectToken, looked]))

/-- At a selection: the input starts with a header, ends inside one, or is invalid. -/
theorem select_ends {P : Bool} {inner : Inner} (offers : Offers tree label headers)
    (turns : driveStep P inner = selectToken tree wait error default level) (input : Bytes) :
    (∃ header ∈ headers, ∃ rest, input = header.1 ++ rest) ∨
      (∃ next, drive P inner input = .done ⟨wait next, level⟩ input.length ∧
        ∃ header ∈ headers, ∃ tail, tail ≠ [] ∧ header.1 = input ++ tail) ∨
      drive P inner input = .fail inner error := by
  have decided := @Offers.verdict N E B tree label headers wait error level offers _ _
    offers.selects.start input
  rcases decided with ⟨header, _, n, turn⟩ | ⟨next, _, turn⟩ | turn
  · obtain ⟨header, listed, _, _, spelled⟩ := offers.of_again turn
    exact .inl ⟨header, listed, _, spelled⟩
  · obtain ⟨header, listed, tail, nonempty, spelled⟩ := offers.of_stop turn
    have ran := (drive_lawful P).run_stop (m := driveMachine P) ((congrFun turns input).trans turn)
    exact .inr (.inl ⟨next, ran, header, listed, tail, nonempty, spelled⟩)
  · exact .inr (.inr ((drive_lawful P).run_fail (m := driveMachine P)
      ((congrFun turns input).trans turn)))

end Selection

/-- Fewer than eight bytes of a length are kept. -/
theorem readLen_short {wait : Bytes → Nat → InnerState} {done : UInt64 → InnerState}
    {level : Nat} {input : Bytes} (short : input.length < 8) :
    ∃ value, readLen wait done zeros 0 level input =
      .stop ⟨wait value input.length, level⟩ input.length := by
  have count : min input.length (8 - 0) = input.length := by omega
  have room : zeros.length = 8 := rfl
  simp only [readLen, count, room, Nat.zero_add]
  rw [if_neg (by omega), if_pos short]
  exact ⟨_, rfl⟩

/-- At a field: the input holds it whole, or ends inside it. -/
theorem field_ends {wait : Bytes → Nat → InnerState} {done : UInt64 → InnerState}
    {skipping : UInt64 → UInt64 → InnerState} {next : InnerState} {level : Nat} {inner : Inner}
    (turns : driveStep true inner = readLen wait done zeros 0 level)
    (skips : ∀ len, driveStep true ⟨done len, level⟩ =
      skipBytes (skipping len) next (calcAligned len) level) (input : Bytes) :
    (∃ len payload rest, payload.length = codeAlign len ∧
        input = toLeBytes len ++ payload ++ rest) ∨
      (∃ s, drive true inner input = .done s input.length ∧
        ((∃ value read, s = ⟨wait value read, level⟩) ∨ ∃ len rem, s = ⟨skipping len rem, level⟩) ∧
        ∃ len payload tail, tail ≠ [] ∧ payload.length = codeAlign len ∧
          toLeBytes len ++ payload = input ++ tail) := by
  by_cases short : input.length < 8
  · -- Any bytes complete the length word, and zeros its field.
    obtain ⟨value, turn⟩ := @readLen_short wait done level input short
    have ran := (drive_lawful true).run_stop (m := driveMachine true)
      ((congrFun turns input).trans turn)
    have eight : (input ++ List.replicate (8 - input.length) 0).length = 8 := by simp; omega
    obtain ⟨len, spelled⟩ : ∃ len, toLeBytes len = input ++ List.replicate (8 - input.length) 0 :=
      ⟨_, toLeBytes_fromLeBytes eight⟩
    refine .inr ⟨_, ran, .inl ⟨value, input.length, rfl⟩, len, List.replicate (codeAlign len) 0,
      List.replicate (8 - input.length) 0 ++ List.replicate (codeAlign len) 0, ?_,
      List.length_replicate, ?_⟩
    · intro empty
      have none := (List.append_eq_nil_iff.mp empty).1
      rw [List.replicate_eq_nil_iff] at none
      omega
    · rw [spelled, List.append_assoc]
  · have eight : (input.take 8).length = 8 := by rw [List.length_take]; omega
    have joined : input = toLeBytes (fromLeBytes (input.take 8)) ++ input.drop 8 := by
      rw [toLeBytes_fromLeBytes eight, List.take_append_drop]
    generalize fromLeBytes (input.take 8) = len at joined
    generalize input.drop 8 = rest at joined
    subst joined
    by_cases covered : codeAlign len ≤ rest.length
    · refine .inl ⟨len, rest.take (codeAlign len), rest.drop (codeAlign len), ?_, ?_⟩
      · rw [List.length_take, Nat.min_eq_left covered]
      · rw [List.append_assoc, List.take_append_drop]
    · have turn : driveStep true ⟨done len, level⟩ rest = .stop
          ⟨skipping len (calcAligned len - UInt64.ofNat rest.length), level⟩ rest.length := by
        rw [skips, skipBytes, if_pos]
        exact Nat.lt_of_not_le covered
      have ran := (drive_lawful true).run_stop (m := driveMachine true) turn
      have total : (toLeBytes len ++ rest).length = 8 + rest.length := by
        rw [List.length_append, toLeBytes_length]
      refine .inr ⟨⟨skipping len (calcAligned len - UInt64.ofNat rest.length), level⟩, ?_,
        .inr ⟨len, _, rfl⟩, len, rest ++ List.replicate (codeAlign len - rest.length) 0,
        List.replicate (codeAlign len - rest.length) 0, ?_, ?_, ?_⟩
      · rw [drive_word turns, drive, ran, total, Run.shift]
      · rw [Ne, List.replicate_eq_nil_iff]
        omega
      · rw [List.length_append, List.length_replicate]
        omega
      · rw [List.append_assoc]

/-- How the automaton can meet an input at a place: the input starts with a part, ends inside
one, or is invalid. -/
def Meets (place : Place) (level : Nat) (input : Bytes) : Prop :=
  (∃ part next after rest, Part codeAlign place level part next after ∧ part ≠ [] ∧
      input = part ++ rest) ∨
    (∃ s, drive true ⟨place.state, level⟩ input = .done s input.length ∧ s.state ≠ .eof ∧
      ∃ tail next after, tail ≠ [] ∧ Part codeAlign place level (input ++ tail) next after) ∨
    (∃ s e, drive true ⟨place.state, level⟩ input = .fail s e ∧ e.kind = .invalidData)

/-- A place before a token. -/
theorem meets_token {wait : Nat → InnerState} {tok : Bytes} {state : InnerState}
    {place next : Place} {level after : Nat}
    (turns : driveStep true ⟨place.state, level⟩ = readToken wait tok 0 state level)
    (waits : ∀ read, wait read ≠ .eof) (nonempty : 0 < tok.length)
    (step : Part codeAlign place level tok next after) (input : Bytes) :
    Meets place level input := by
  rcases token_ends turns input with ⟨rest, joined⟩ | ⟨tail, more, spelled, ran⟩ | ran
  · exact .inl ⟨tok, next, after, rest, step, List.ne_nil_of_length_pos nonempty, joined⟩
  · exact .inr (.inl ⟨_, ran, waits _, tail, next, after, more, spelled ▸ step⟩)
  · exact .inr (.inr ⟨_, _, ran, rfl⟩)

/-- A place before one of several headers. -/
theorem meets_select {N E B : Nat} {tree : RTree N E B InnerState} {label : Nat → Bytes}
    {headers : List (Bytes × InnerState)} {wait : RLookup → InnerState} {error : IoError}
    {place : Place} {level : Nat} (offers : Offers tree label headers)
    (turns : driveStep true ⟨place.state, level⟩ = selectToken tree wait error default level)
    (waits : ∀ cursor, wait cursor ≠ .eof) (invalid : error.kind = .invalidData)
    (known : ∀ header ∈ headers, header ∈ nodeHeaders ++ entryHeaders)
    (steps : ∀ header ∈ headers, ∃ next after, Part codeAlign place level header.1 next after)
    (input : Bytes) : Meets place level input := by
  rcases select_ends offers turns input with
    ⟨header, listed, rest, joined⟩ | ⟨cursor, ran, header, listed, tail, more, spelled⟩ | ran
  · obtain ⟨next, after, step⟩ := steps header listed
    have nonempty := headers_nonempty header (known header listed)
    exact .inl ⟨_, next, after, rest, step, List.ne_nil_of_length_pos nonempty, joined⟩
  · obtain ⟨next, after, step⟩ := steps header listed
    exact .inr (.inl ⟨_, ran, waits _, tail, next, after, more, spelled ▸ step⟩)
  · exact .inr (.inr ⟨_, _, ran, invalid⟩)

/-- A place before a field. -/
theorem meets_field {wait : Bytes → Nat → InnerState} {done : UInt64 → InnerState}
    {skipping : UInt64 → UInt64 → InnerState} {state : InnerState} {place next : Place}
    {level : Nat} (turns : driveStep true ⟨place.state, level⟩ = readLen wait done zeros 0 level)
    (skips : ∀ len, driveStep true ⟨done len, level⟩ =
      skipBytes (skipping len) state (calcAligned len) level)
    (waits : ∀ value read, wait value read ≠ .eof) (waits' : ∀ len rem, skipping len rem ≠ .eof)
    (step : ∀ len payload, payload.length = codeAlign len →
      Part codeAlign place level (toLeBytes len ++ payload) next level) (input : Bytes) :
    Meets place level input := by
  rcases field_ends turns skips input with
    ⟨len, payload, rest, sized, joined⟩ | ⟨s, ran, waiting, len, payload, tail, more, sized, spelled⟩
  · refine .inl ⟨_, next, level, rest, step len payload sized, ?_, joined⟩
    apply List.ne_nil_of_length_pos
    rw [List.length_append, toLeBytes_length]
    omega
  · have live : s.state ≠ .eof := by
      rcases waiting with ⟨value, read, rfl⟩ | ⟨len, rem, rfl⟩
      · exact waits value read
      · exact waits' len rem
    exact .inr (.inl ⟨s, ran, live, tail, next, level, more, spelled ▸ step len payload sized⟩)

/-- The automaton can meet any input at every place before the end. -/
theorem Place.meets (place : Place) (level : Nat) (live : place ≠ .finished)
    (opened : place = .entries → 0 < level) (input : Bytes) : Meets place level input := by
  obtain ⟨_, par, node⟩ := tokens_nonempty
  cases place with
  | node =>
    refine meets_select nodeSelect_offers rfl (fun _ => InnerState.noConfusion) rfl
      (fun _ => List.mem_append_left _) ?_ input
    intro header listed
    simp only [nodeHeaders, List.mem_cons, List.not_mem_nil, or_false] at listed
    rcases listed with rfl | rfl | rfl | rfl
    · exact ⟨_, _, .directory level⟩
    · exact ⟨_, _, .header .symlink level⟩
    · exact ⟨_, _, .header .file level⟩
    · exact ⟨_, _, .header .executableFile level⟩
  | body nodeType =>
    have turns : driveStep true ⟨(Place.body nodeType).state, level⟩ =
        readLen (.readContentsLen nodeType)
          (fun len => .readContents nodeType len (calcAligned len)) zeros 0 level := rfl
    have skips (len : UInt64) :
        driveStep true ⟨.readContents nodeType len (calcAligned len), level⟩ =
          skipBytes (.readContents nodeType len) (.finishNode 0) (calcAligned len) level := rfl
    exact meets_field turns skips (fun _ _ => InnerState.noConfusion)
      (fun _ _ => InnerState.noConfusion) (Part.body nodeType level) input
  | close =>
    have waits (read : Nat) : InnerState.finishNode read ≠ .eof := InnerState.noConfusion
    cases level with
    | zero => exact meets_token rfl waits par .closeRoot input
    | succ level => exact meets_token rfl waits par (.close level) input
  | entries =>
    refine meets_select entrySelect_offers rfl (fun _ => InnerState.noConfusion) rfl
      (fun _ => List.mem_append_right _) ?_ input
    intro header listed
    simp only [entryHeaders, List.mem_cons, List.not_mem_nil, or_false] at listed
    rcases listed with rfl | rfl
    · exact ⟨_, _, .entry level⟩
    · have positive := opened rfl
      obtain rfl | ⟨below, rfl⟩ : level = 1 ∨ ∃ below, level = below + 2 := by
        by_cases one : level = 1
        · exact .inl one
        · exact .inr ⟨level - 2, by omega⟩
      · exact ⟨_, _, .closeRootDirectory⟩
      · exact ⟨_, _, .closeDirectory below⟩
  | name =>
    have turns : driveStep true ⟨Place.name.state, level⟩ = readLen .readEntryNameLen
        (fun len => .readEntryName len (calcAligned len)) zeros 0 level := rfl
    have skips (len : UInt64) : driveStep true ⟨.readEntryName len (calcAligned len), level⟩ =
        skipBytes (.readEntryName len) (.readNode 0) (calcAligned len) level := rfl
    exact meets_field turns skips (fun _ _ => InnerState.noConfusion)
      (fun _ _ => InnerState.noConfusion) (Part.name level) input
  | mark => exact meets_token rfl (fun _ => InnerState.noConfusion) node (.mark level) input
  | closeEntry =>
    exact meets_token rfl (fun _ => InnerState.noConfusion) par (.closeEntry level) input
  | finished => exact absurd rfl live

/-! ## The language of the automaton -/

/-- Inside a directory at least one directory is open. -/
theorem Reads.opened {align : UInt64 → Nat} {word : Bytes} {place : Place} {level : Nat}
    (reads : Reads align word place level) :
    place = .entries ∨ place = .closeEntry ∨ place = .name ∨ place = .mark → 0 < level := by
  induction reads with
  | start => simp
  | more before step ih => cases step <;> simp_all

/-- From any place on the way the automaton ends behind the archive, inside a part, or with
an error. -/
theorem Reads.outcome {word : Bytes} {place : Place} {level : Nat}
    (reads : Reads codeAlign word place level) (rest : Bytes) :
    (∃ more tail after, rest = more ++ tail ∧ Reads codeAlign (word ++ more) .finished after) ∨
      (∃ s, drive true .start (word ++ rest) = .done s (word ++ rest).length ∧ s.state ≠ .eof ∧
        ∃ tail place after, tail ≠ [] ∧ Reads codeAlign (word ++ rest ++ tail) place after) ∨
      (∃ s e, drive true .start (word ++ rest) = .fail s e ∧ e.kind = .invalidData) := by
  -- The rest gets shorter with every part read.
  induction size : rest.length using Nat.strongRecOn generalizing word place level rest with
  | ind total ih =>
    by_cases live : place = .finished
    · subst live
      exact .inl ⟨[], rest, level, rfl, by rwa [List.append_nil]⟩
    · have opened (inside : place = .entries) : 0 < level := reads.opened (.inl inside)
      rcases place.meets level live opened rest with
        ⟨part, next, after, tail, step, nonempty, rfl⟩ | ⟨s, ran, waits, tail, next, after, more, step⟩ |
          ⟨s, e, ran, invalid⟩
      · have shorter : tail.length < total := by
          have := List.length_pos_of_ne_nil nonempty
          rw [List.length_append] at size
          omega
        have later := ih tail.length shorter (reads.more step) tail rfl
        rw [List.append_assoc] at later
        rcases later with ⟨further, behind, final, rfl, whole⟩ | waiting | failed
        · exact .inl ⟨part ++ further, behind, final, by rw [List.append_assoc],
            by rwa [← List.append_assoc]⟩
        · exact .inr (.inl waiting)
        · exact .inr (.inr failed)
      · refine .inr (.inl ⟨s, ?_, waits, tail, next, after, more, ?_⟩)
        · rw [reads.followed, ran, Run.shift, List.length_append]
        · rw [List.append_assoc]
          exact reads.more step
      · exact .inr (.inr ⟨s, e, by rw [reads.followed, ran, Run.shift], invalid⟩)

section Completion

variable {align : UInt64 → Nat} {word : Bytes} {level : Nat}

/-- Bytes that can be completed to an archive. -/
def Completes (align : UInt64 → Nat) (word : Bytes) : Prop :=
  ∃ tail after, Reads align (word ++ tail) .finished after

/-- What leads to completable bytes is completable. -/
theorem Completes.of_append {part : Bytes} (later : Completes align (word ++ part)) :
    Completes align word := by
  obtain ⟨tail, after, reads⟩ := later
  exact ⟨part ++ tail, after, by rwa [← List.append_assoc]⟩

/-- A directory can be closed, and the directories around it after it. -/
theorem Reads.completes_entries (positive : 0 < level)
    (reads : Reads align word .entries level) : Completes align word := by
  induction level generalizing word with
  | zero => exact absurd positive (Nat.lt_irrefl 0)
  | succ level ih =>
    cases level with
    | zero => exact ⟨tokPar, 1, reads.more .closeRootDirectory⟩
    | succ level =>
      have closed := (reads.more (.closeDirectory level)).more (.closeEntry (level + 1))
      exact (ih (Nat.succ_pos level) closed).of_append.of_append

/-- The beginning of an archive can be completed from every place. -/
theorem Reads.completes {place : Place} (reads : Reads align word place level) :
    Completes align word := by
  have entries {word : Bytes} {level : Nat} (reads : Reads align word .entries level) :
      Completes align word := reads.completes_entries (reads.opened (.inl rfl))
  have node {word : Bytes} {level : Nat} (reads : Reads align word .node level) :
      Completes align word := (entries (reads.more (.directory level))).of_append
  have closeEntry {word : Bytes} {level : Nat} (reads : Reads align word .closeEntry level) :
      Completes align word := (entries (reads.more (.closeEntry level))).of_append
  have close {word : Bytes} {level : Nat} (reads : Reads align word .close level) :
      Completes align word := by
    cases level with
    | zero => exact ⟨tokPar, 0, reads.more .closeRoot⟩
    | succ level => exact (closeEntry (reads.more (.close level))).of_append
  have mark {word : Bytes} {level : Nat} (reads : Reads align word .mark level) :
      Completes align word := (node (reads.more (.mark level))).of_append
  have sized : (List.replicate (align 0) (0 : UInt8)).length = align 0 := List.length_replicate
  cases place with
  | node => exact node reads
  | body nodeType => exact (close (reads.more (.body nodeType level 0 _ sized))).of_append
  | close => exact close reads
  | entries => exact entries reads
  | name => exact (mark (reads.more (.name level 0 _ sized))).of_append
  | mark => exact mark reads
  | closeEntry => exact closeEntry reads
  | finished => exact ⟨[], level, by rwa [List.append_nil]⟩

end Completion

/-- Behind an archive the automaton halts, whatever follows. -/
theorem Reads.finishes {word : Bytes} {level : Nat} (reads : Reads codeAlign word .finished level)
    (rest : Bytes) : drive true .start (word ++ rest) = .done ⟨.eof, level⟩ word.length := by
  have halts : drive true ⟨.eof, level⟩ rest = .done ⟨.eof, level⟩ 0 :=
    (drive_lawful true).run_stop (m := driveMachine true) rfl
  rw [reads.followed, Place.state, halts, Run.shift, Nat.add_zero]

/-- The automaton over a whole input: it halts behind an archive, it has read the proper
beginning of one, or the data is invalid. -/
theorem framing (input : Bytes) :
    (∃ word tail level, input = word ++ tail ∧ Reads codeAlign word .finished level ∧
        drive true .start input = .done ⟨.eof, level⟩ word.length) ∨
      (∃ s, drive true .start input = .done s input.length ∧ s.state ≠ .eof ∧
        ∃ tail level, tail ≠ [] ∧ Reads codeAlign (input ++ tail) .finished level) ∨
      (∃ s e, drive true .start input = .fail s e ∧ e.kind = .invalidData) := by
  have turns : driveStep true .start = readToken .root tokRoot 0 (.selectNode default) 0 := rfl
  rcases token_ends turns input with ⟨rest, rfl⟩ | ⟨tail, more, spelled, ran⟩ | ran
  · rcases Reads.start.outcome rest with
      ⟨further, tail, level, rfl, reads⟩ | ⟨s, ran, waits, tail, place, level, more, reads⟩ | failed
    · refine .inl ⟨tokRoot ++ further, tail, level, by rw [List.append_assoc], reads, ?_⟩
      rw [← List.append_assoc]
      exact reads.finishes tail
    · obtain ⟨further, after, whole⟩ := reads.completes
      refine .inr (.inl ⟨s, ran, waits, tail ++ further, after, ?_, by rwa [← List.append_assoc]⟩)
      exact List.append_ne_nil_of_left_ne_nil more further
    · exact .inr (.inr failed)
  · obtain ⟨further, after, whole⟩ := (@Reads.start codeAlign).completes
    rw [spelled, List.append_assoc] at whole
    exact .inr (.inl ⟨_, ran, InnerState.noConfusion, tail ++ further, after,
      List.append_ne_nil_of_left_ne_nil more further, whole⟩)
  · exact .inr (.inr ⟨_, _, ran, rfl⟩)

end Harmonia.Nar
