import Harmonia.Nar.Dumping
import Harmonia.Nar.Restorer

/-!
# Restoring on a case-insensitive file system

A file system that takes names for the same that differ only in case, as far as a restorer uses it:
it creates entries in directories that are there. A restorer with the case hack renames what it
could not create otherwise. Restoring the events of a tree gives the tree with the names hacked one
after the other in each directory, whatever order the file system lists them in.
-/

namespace Harmonia.Nar

open Fs Library

/-! ## Taking the suffix off -/

/-- Where the last occurrence begins, it begins in front of more. -/
theorem rfind_lt {needle text : Bytes} (some' : needle ≠ []) {pos : Nat}
    (found : rfind needle text = some pos) : pos < text.length := by
  induction text generalizing pos with
  | nil =>
    rw [rfind, if_neg some'] at found
    cases found
  | cons byte rest ih =>
    rw [rfind] at found
    split at found
    case h_1 pos' later =>
      cases found
      exact Nat.succ_lt_succ (ih later)
    case h_2 =>
      split at found
      · cases found
        exact Nat.succ_pos _
      · cases found

/-- The last occurrence is behind whatever comes first. -/
theorem rfind_append {needle text : Bytes} {pos : Nat} (found : rfind needle text = some pos)
    (before : Bytes) : rfind needle (before ++ text) = some (before.length + pos) := by
  induction before with
  | nil => rw [List.nil_append, found, List.length_nil, Nat.zero_add]
  | cons byte before ih =>
    rw [List.cons_append, rfind, ih, List.length_cons]
    exact congrArg some (by omega)

/-- The suffix, byte by byte. -/
theorem caseHackSuffix_eq : caseHackSuffix = [0x7E, 0x6E, 0x69, 0x78, 0x7E, 0x63, 0x61, 0x73, 0x65,
    0x7E, 0x68, 0x61, 0x63, 0x6B, 0x7E] := by decide +kernel

/-- The suffix begins with a tilde. -/
theorem rfind_free {text : Bytes} (free : ∀ byte ∈ text, byte ≠ 0x7E) :
    rfind caseHackSuffix text = none := by
  induction text with
  | nil => rw [rfind, caseHackSuffix_eq, if_neg (List.cons_ne_nil _ _)]
  | cons byte rest ih =>
    have first : caseHackSuffix.isPrefixOf (byte :: rest) = false := by
      rw [caseHackSuffix_eq]
      have other : (0x7E == byte) = false :=
        beq_eq_false_iff_ne.mpr (free byte List.mem_cons_self).symm
      show ((0x7E == byte) && _) = false
      rw [other]
      rfl
    rw [rfind, ih fun byte member => free byte (List.mem_cons_of_mem _ member), first]
    rfl

/-- The suffix begins with a tilde and an `n`. -/
theorem rfind_pairs {before : Bytes} {byte : UInt8} {rest : Bytes}
    (absent : rfind caseHackSuffix (byte :: rest) = none)
    (pairs : (before ++ [byte]).IsChain fun left right => left ≠ 0x7E ∨ right ≠ 0x6E) :
    rfind caseHackSuffix (before ++ byte :: rest) = none := by
  induction before with
  | nil => exact absent
  | cons first before ih =>
    obtain ⟨second, more, same, apart, later⟩ : ∃ second more,
        before ++ byte :: rest = second :: more ∧ (first ≠ 0x7E ∨ second ≠ 0x6E) ∧
          (before ++ [byte]).IsChain fun left right => left ≠ 0x7E ∨ right ≠ 0x6E := by
      cases before with
      | nil => exact ⟨byte, rest, rfl, List.isChain_cons_cons.mp pairs⟩
      | cons second more => exact ⟨second, more ++ byte :: rest, rfl, List.isChain_cons_cons.mp pairs⟩
    have start : caseHackSuffix.isPrefixOf (first :: second :: more) = false := by
      rw [caseHackSuffix_eq]
      show ((0x7E == first) && ((0x6E == second) && _)) = false
      rcases apart with other | other
      · rw [beq_eq_false_iff_ne.mpr other.symm]
        rfl
      · rw [beq_eq_false_iff_ne.mpr other.symm, Bool.false_and, Bool.and_false]
    have later := ih later
    rw [List.cons_append, rfind, later, same, start]
    rfl

/-- The suffix stands last in front of digits. -/
theorem rfind_suffix {digits : Bytes} (decimal : ∀ byte ∈ digits, 48 ≤ byte.toNat ∧ byte.toNat ≤ 57) :
    rfind caseHackSuffix (caseHackSuffix ++ digits) = some 0 := by
  have apart {byte other : UInt8} (large : 57 < other.toNat) (member : byte ∈ digits) :
      byte ≠ other := by
    rintro rfl
    exact absurd (decimal byte member).2 (Nat.not_le.mpr large)
  have free : rfind caseHackSuffix digits = none :=
    rfind_free fun byte member => apart (by decide) member
  have last : rfind caseHackSuffix (0x7E :: digits) = none := by
    have start : caseHackSuffix.isPrefixOf (0x7E :: digits) = false := by
      rw [caseHackSuffix_eq]
      cases digits with
      | nil => rfl
      | cons byte rest =>
        have other : (0x6E == byte) = false :=
          beq_eq_false_iff_ne.mpr (apart (by decide) List.mem_cons_self).symm
        show (_ && ((0x6E == byte) && _)) = false
        rw [other, Bool.false_and, Bool.and_false]
    rw [rfind, free, start]
    rfl
  have inner := @rfind_pairs [0x6E, 0x69, 0x78, 0x7E, 0x63, 0x61, 0x73, 0x65, 0x7E, 0x68, 0x61, 0x63,
    0x6B] 0x7E digits last (by decide)
  have whole : caseHackSuffix.isPrefixOf (caseHackSuffix ++ digits) = true :=
    List.isPrefixOf_iff_prefix.mpr (List.prefix_append _ _)
  have same : caseHackSuffix ++ digits = 0x7E :: ([0x6E, 0x69, 0x78, 0x7E, 0x63, 0x61, 0x73, 0x65, 0x7E,
      0x68, 0x61, 0x63, 0x6B] ++ 0x7E :: digits) := by
    rw [caseHackSuffix_eq]
    rfl
  rw [same] at whole ⊢
  rw [rfind, inner, whole]
  rfl

/-- Taking the suffix off a hacked name gives the name. -/
theorem removeCaseHack_hacked (name : Bytes) (idx : Nat) :
    removeCaseHack (hackedName name idx) = name := by
  have found := rfind_append (rfind_suffix fun _ => @mem_decimal idx _) name
  rw [Nat.add_zero, ← List.append_assoc] at found
  rw [removeCaseHack, hackedName, found, List.append_assoc]
  exact List.take_left

/-- Taking the suffix off makes a name shorter, if it has one. -/
theorem removeCaseHack_length (name : Bytes) : (removeCaseHack name).length ≤ name.length ∧
    ((removeCaseHack name).length = name.length ↔ rfind caseHackSuffix name = none) := by
  rw [removeCaseHack]
  cases found : rfind caseHackSuffix name with
  | none => simp
  | some pos =>
    have less := rfind_lt (by rw [caseHackSuffix_eq]; exact List.cons_ne_nil _ _) found
    have length : (name.take pos).length = pos := by
      rw [List.length_take]
      omega
    simp only [length]
    exact ⟨Nat.le_of_lt less, iff_of_false (Nat.ne_of_lt less) (by simp)⟩

/-! ## The file system -/

/-- A file system that takes names for the same that have the same key, and that lists a new entry
where it likes. -/
structure CaseFs where
  /-- What is left of a name. -/
  fold : Bytes → Bytes
  /-- Where a new entry is listed. -/
  slot : Entries → Bytes → Nat

/-- List an entry behind so many others. -/
def insertAt (name : Bytes) (node : Node) : Nat → Entries → Entries
  | 0, entries => .cons name node entries
  | _ + 1, .nil => .cons name node .nil
  | slot + 1, .cons first other rest => .cons first other (insertAt name node slot rest)

namespace CaseFs

variable (fs : CaseFs)

/-- Create an entry in a directory. -/
def create (name : Bytes) (node : Node) (entries : Entries) : Option Entries :=
  if ∃ other ∈ entries.names, fs.fold other = fs.fold name then none
  else some (insertAt name node (fs.slot entries name) entries)

/-- Change an entry of a directory. -/
def update (name : Bytes) (change : Node → Option Node) : Entries → Option Entries
  | .nil => none
  | .cons first node rest =>
    if fs.fold first = fs.fold name then (change node).map fun node => .cons first node rest
    else (update name change rest).map (.cons first node)

/-- Change a directory below another one. -/
def within (change : Entries → Option Entries) : List Bytes → Entries → Option Entries
  | [], entries => change entries
  | name :: names, entries =>
    fs.update name (fun node =>
      match node with
      | .directory inner => (within change names inner).map .directory
      | _ => none) entries

/-- The names that lead from one path to another. -/
def descent : List Component → List Component → Option (List Bytes)
  | [], [] => some []
  | [], .normal name :: rest => (descent [] rest).map (name :: ·)
  | first :: base, other :: rest => if first = other then descent base rest else none
  | _, _ => none

/-- What is created by some work. -/
def made : FsOp Bytes → Node
  | .createFile _ executable contents => .file (if executable then 0o777 else 0o666) contents
  | .symlink _ target => .symlink target
  | .createDir _ => .directory .nil

/-- Do some work below a path where there may be something. -/
def perform (root : Path) (op : FsOp Bytes) (tree : Option Node) : Option (Option Node) :=
  match descent root.components op.path.components, tree with
  | some [], none => some (some (made op))
  | some (first :: names), some (.directory entries) =>
    let last := (first :: names).getLast (List.cons_ne_nil _ _)
    (fs.within (fs.create last (made op)) (first :: names).dropLast entries).map fun entries =>
      some (.directory entries)
  | _, _ => none

/-- Restore events, while all the work is done without an error. -/
def restoreAll (lower : Bytes → Bytes) (root : Path) : List (NarEvent Bytes) →
    NarRestorer Bytes × Option Node → Option (NarRestorer Bytes × Option Node)
  | [], state => some state
  | event :: events, (this, tree) => do
    let next ← this.startSend lower event
    let tree ← match next.state with
      | some op => fs.perform root op tree
      | none => some tree
    restoreAll lower root events (next.ready, tree)

end CaseFs

/-! ## The events of a tree with its contents -/

section Contents

variable (rename : Bytes → Bytes)

mutual

/-- The events of a node, under a name. -/
def contentEvents (name : Bytes) : Node → List (NarEvent Bytes)
  | .file mode contents =>
    [.file name (mode &&& 0o100 == 0o100) (UInt64.ofNat contents.length) contents]
  | .symlink target => [.symlink name target]
  | .directory entries => .startDirectory name :: (entriesContentEvents entries ++ [.endDirectory])
  | .special _ => []

/-- The events of the entries of a directory. -/
def entriesContentEvents : Entries → List (NarEvent Bytes)
  | .nil => []
  | .cons name node rest => contentEvents (rename name) node ++ entriesContentEvents rest

end

end Contents

/-! ## What is restored -/

section Restored

variable (fs : CaseFs) (lower : Bytes → Bytes)

mutual

/-- What becomes of a node. -/
def restored : Node → Option Node
  | .file mode contents =>
    some (.file (if mode &&& 0o100 == 0o100 then 0o777 else 0o666) contents)
  | .symlink target => some (.symlink target)
  | .directory entries => (entriesRestored [] .nil entries).map fun result => .directory result.2
  | .special _ => none

/-- What becomes of the entries of a directory, behind others: the names met, and the entries. -/
def entriesRestored (met : CaseEntries) (made : Entries) : Entries → Option (CaseEntries × Entries)
  | .nil => some (met, made)
  | .cons name node rest => do
    let (name, met) ← hackName lower met name
    let node ← restored node
    let made ← fs.create name node made
    entriesRestored met made rest

end

end Restored

/-! ## A restorer restores it -/

namespace CaseFs

variable {fs : CaseFs}

/-- Changing what has just been created is creating it changed. -/
theorem update_insertAt {name : Bytes} {node : Node} {change : Node → Option Node} {slot : Nat}
    {entries : Entries} (fresh : ¬ ∃ other ∈ entries.names, fs.fold other = fs.fold name) :
    fs.update name change (insertAt name node slot entries) =
      (change node).map fun node => insertAt name node slot entries := by
  induction slot generalizing entries with
  | zero =>
    rw [insertAt, update, if_pos rfl]
    rfl
  | succ slot ih =>
    cases entries with
    | nil =>
      rw [insertAt, update, if_pos rfl]
      rfl
    | cons first other rest =>
      have apart : ¬ fs.fold first = fs.fold name :=
        fun same => fresh ⟨first, List.mem_cons_self, same⟩
      have later : ¬ ∃ other ∈ rest.names, fs.fold other = fs.fold name :=
        fun ⟨other, member, same⟩ => fresh ⟨other, List.mem_cons_of_mem _ member, same⟩
      rw [insertAt, update, if_neg apart, ih later, Option.map_map]
      rfl

/-- A change further below is a change below. -/
theorem within_append (change : Entries → Option Entries) (names more : List Bytes) :
    fs.within change (names ++ more) = fs.within (fs.within change more) names := by
  induction names with
  | nil => rfl
  | cons name names ih =>
    funext entries
    rw [List.cons_append, within, within, ih]

/-- There is a directory at the end of some names, and this is what is around it. -/
def Focus (fs : CaseFs) (names : List Bytes) (around : Entries → Entries) : Prop :=
  ∀ change entries, fs.within change names (around entries) = (change entries).map around

/-- Nothing is around the root. -/
theorem Focus.root : Focus fs [] id := by
  intro change entries
  exact Option.map_id'.symm

/-- What is around a directory that has just been created. -/
theorem Focus.enter {names : List Bytes} {around : Entries → Entries} (focus : Focus fs names around)
    {name : Bytes} {entries : Entries} (slot : Nat)
    (fresh : ¬ ∃ other ∈ entries.names, fs.fold other = fs.fold name) :
    Focus fs (names ++ [name]) fun inner => around (insertAt name (.directory inner) slot entries) := by
  intro change inner
  rw [within_append, focus, within, update_insertAt fresh]
  show (((change inner).map Node.directory).map _).map around = _
  rw [Option.map_map, Option.map_map]
  rfl

/-- The names that have been joined to a path lead there. -/
theorem descent_append (base : List Component) (names : List Bytes) :
    descent base (base ++ names.map .normal) = some names := by
  induction base with
  | nil =>
    induction names with
    | nil => rfl
    | cons name names ih =>
      rw [List.nil_append] at ih ⊢
      rw [List.map_cons, descent, ih]
      rfl
  | cons first base ih =>
    rw [List.cons_append, descent, if_pos rfl, ih]

/-- Work in a directory below the root. -/
theorem perform_focus {names : List Bytes} {around : Entries → Entries}
    (focus : Focus fs names around) {root : Path} {op : FsOp Bytes} {name : Bytes}
    (path : op.path.components = root.components ++ (names ++ [name]).map .normal)
    (entries : Entries) : fs.perform root op (some (.directory (around entries))) =
      (fs.create name (made op) entries).map fun entries => some (.directory (around entries)) := by
  obtain ⟨first, rest, same⟩ : ∃ first rest, names ++ [name] = first :: rest :=
    List.exists_cons_of_ne_nil (by simp)
  have last : (first :: rest).getLast (List.cons_ne_nil _ _) = name := by
    simp only [← same, List.getLast_append_singleton]
  have others : (first :: rest).dropLast = names := by
    rw [← same, List.dropLast_concat]
  have leads : descent root.components op.path.components = some (first :: rest) := by
    rw [path, same, descent_append]
  unfold perform
  rw [leads]
  simp only [last, others]
  rw [focus (fs.create name (made op)) entries, Option.map_map]
  rfl

/-- What a name is hacked to. -/
theorem hackName_legal {lower : Bytes → Bytes} {met met' : CaseEntries} {name hacked : Bytes}
    (legal : LegalName name) (done : hackName lower met name = some (hacked, met')) :
    LegalName hacked := by
  unfold hackName at done
  simp only at done
  split at done
  · split at done
    · obtain ⟨rfl, _⟩ := Prod.mk.inj (Option.some.inj done)
      exact legal_hacked legal _
    · cases done
  · obtain ⟨rfl, _⟩ := Prod.mk.inj (Option.some.inj done)
    exact legal

/-- A restorer that hacks names and is in the directory at the end of some names. -/
structure In (root : Path) (names : List Bytes) (this : NarRestorer Bytes) : Prop where
  /-- Nothing is being done. -/
  idle : this.state = none
  /-- Names are hacked. -/
  hack : this.useCaseHack = true
  /-- The path. -/
  path : this.path.components = root.components ++ names.map .normal

/-- Other names met leave it where it is. -/
theorem In.meets {root : Path} {names : List Bytes} {this : NarRestorer Bytes}
    (inside : In root names this) (met : CaseEntries) : In root names { this with entries := met } :=
  ⟨inside.idle, inside.hack, inside.path⟩

/-- The path of an entry with a legal name. -/
theorem In.child {root : Path} {names : List Bytes} {this : NarRestorer Bytes}
    (inside : In root names this) {name : Bytes} (legal : LegalName name) :
    (joinName this.path name).components = root.components ++ (names ++ [name]).map .normal := by
  rw [joinName, if_neg legal.filled, legal.join, Path.child_components, inside.path, List.map_append,
    List.append_assoc]
  rfl

section Run

variable {lower : Bytes → Bytes} {root : Path}

/-- An event that creates one thing. -/
theorem restoreAll_one {names : List Bytes} {around : Entries → Entries} {entries : Entries}
    {this : NarRestorer Bytes} {name : Bytes} {event : NarEvent Bytes} {more : List (NarEvent Bytes)}
    (op : Bytes → FsOp Bytes) {node : Node} (focus : Focus fs names around)
    (inside : In root names this) (legal : LegalName name)
    (sends : this.startSend lower event = (hackName lower this.entries name).map fun hacked =>
      { this with entries := hacked.2, state := some (op hacked.1) })
    (paths : ∀ hacked, (op hacked).path = joinName this.path hacked)
    (makes : ∀ hacked, made (op hacked) = node) :
    fs.restoreAll lower root (event :: more) (this, some (.directory (around entries))) =
      (hackName lower this.entries name).bind fun hacked =>
        (fs.create hacked.1 node entries).bind fun entries =>
          fs.restoreAll lower root more
            ({ this with entries := hacked.2 }, some (.directory (around entries))) := by
  rw [restoreAll, sends]
  cases hacks : hackName lower this.entries name with
  | none => rfl
  | some hacked =>
    have path : (op hacked.1).path.components =
        root.components ++ (names ++ [hacked.1]).map .normal := by
      rw [paths]
      exact inside.child (hackName_legal legal hacks)
    show (fs.perform root (op hacked.1) (some (.directory (around entries)))).bind _ = _
    rw [perform_focus focus path entries, makes]
    show _ = (fs.create hacked.1 node entries).bind _
    have idle : { this with entries := hacked.2, state := none } = { this with entries := hacked.2 } := by
      rw [← inside.idle]
    cases fs.create hacked.1 node entries with
    | none => rfl
    | some entries =>
      show fs.restoreAll lower root more ({ this with entries := hacked.2, state := none }, _) = _
      rw [idle]
      rfl

mutual

/-- Restoring the events of a node in a directory creates what becomes of it there. -/
theorem restoreAll_node {names : List Bytes} {around : Entries → Entries} {entries : Entries}
    {this : NarRestorer Bytes} {name : Bytes} {more : List (NarEvent Bytes)} : ∀ {node : Node},
      node.Plain → node.Legal → Focus fs names around → In root names this → LegalName name →
      fs.restoreAll lower root (contentEvents id name node ++ more)
          (this, some (.directory (around entries))) =
        (hackName lower this.entries name).bind fun hacked =>
          (restored fs lower node).bind fun node =>
            (fs.create hacked.1 node entries).bind fun entries =>
              fs.restoreAll lower root more
                ({ this with entries := hacked.2 }, some (.directory (around entries)))
  | .special _, plain, _, _, _, _ => plain.elim
  | .file mode contents, _, _, focus, inside, legal => by
    have idle : ¬ this.state.isSome = true := by simp [inside.idle]
    refine restoreAll_one (fun hacked => .createFile (joinName this.path hacked)
      (mode &&& 0o100 == 0o100) contents) focus inside legal ?_ (fun _ => rfl) (fun _ => rfl)
    unfold NarRestorer.startSend
    rw [if_neg idle]
    simp only [NarRestorer.rename, inside.hack, ↓reduceIte]
    cases hackName lower this.entries name <;> rfl
  | .symlink target, _, _, focus, inside, legal => by
    have idle : ¬ this.state.isSome = true := by simp [inside.idle]
    refine restoreAll_one (fun hacked => .symlink (joinName this.path hacked) target) focus inside
      legal ?_ (fun _ => rfl) (fun _ => rfl)
    unfold NarRestorer.startSend
    rw [if_neg idle]
    simp only [NarRestorer.rename, inside.hack, ↓reduceIte]
    cases hackName lower this.entries name <;> rfl
  | .directory inner, plain, legal', focus, inside, legal => by
    have idle : ¬ this.state.isSome = true := by simp [inside.idle]
    rw [contentEvents, List.cons_append, List.append_assoc, restoreAll]
    unfold NarRestorer.startSend
    rw [if_neg idle]
    simp only [NarRestorer.rename, inside.hack, ↓reduceIte]
    cases hacks : hackName lower this.entries name with
    | none => rfl
    | some hacked =>
      have path := inside.child (hackName_legal legal hacks)
      show (fs.perform root (.createDir (joinName this.path hacked.1))
        (some (.directory (around entries)))).bind _ = (restored fs lower (.directory inner)).bind _
      rw [@perform_focus fs names around focus root (.createDir (joinName this.path hacked.1)) hacked.1
        path entries]
      by_cases fresh : ∃ other ∈ entries.names, fs.fold other = fs.fold hacked.1
      · -- Nothing can be created under the name, whatever becomes of the directory.
        have refused (node : Node) : fs.create hacked.1 node entries = none := if_pos fresh
        rw [refused]
        cases restored fs lower (.directory inner) with
        | none => rfl
        | some node =>
          show none = (fs.create hacked.1 node entries).bind _
          rw [refused]
          rfl
      · have created (node : Node) : fs.create hacked.1 node entries =
            some (insertAt hacked.1 node (fs.slot entries hacked.1) entries) := if_neg fresh
        let deeper : NarRestorer Bytes :=
          ⟨this.root, joinName this.path hacked.1, none, true, [], hacked.2 :: this.dirStack⟩
        have entered : In root (names ++ [hacked.1]) deeper := ⟨rfl, rfl, path⟩
        have rest := @restoreAll_entries _ _ .nil deeper (.endDirectory :: more) inner plain legal'
          (focus.enter (fs.slot entries hacked.1) fresh) entered
        rw [created]
        refine rest.trans ?_
        have back : (joinName this.path hacked.1).pop = this.path := by
          have legal := hackName_legal legal hacks
          rw [joinName, if_neg legal.filled, legal.join, Path.pop_child]
        show (entriesRestored fs lower [] .nil inner).bind _ =
          ((entriesRestored fs lower [] .nil inner).map _).bind _
        cases entriesRestored fs lower [] .nil inner with
        | none => rfl
        | some result =>
          show fs.restoreAll lower root more (⟨this.root, (joinName this.path hacked.1).pop, none, true,
            hacked.2, this.dirStack⟩, _) = (fs.create hacked.1 (.directory result.2) entries).bind _
          rw [created, back, inside.idle]
          rfl

/-- Restoring the events of the entries of a directory creates what becomes of them there. -/
theorem restoreAll_entries {names : List Bytes} {around : Entries → Entries} {made : Entries}
    {this : NarRestorer Bytes} {more : List (NarEvent Bytes)} : ∀ {entries : Entries},
      entries.Plain → entries.Legal → Focus fs names around → In root names this →
      fs.restoreAll lower root (entriesContentEvents id entries ++ more)
          (this, some (.directory (around made))) =
        (entriesRestored fs lower this.entries made entries).bind fun result =>
          fs.restoreAll lower root more
            ({ this with entries := result.1 }, some (.directory (around result.2)))
  | .nil, _, _, _, _ => rfl
  | .cons name node rest, plain, legal, focus, inside => by
    rw [entriesContentEvents, List.append_assoc, entriesRestored]
    refine (restoreAll_node plain.1 legal.2.2.1 focus inside legal.1).trans ?_
    cases hackName lower this.entries name with
    | none => rfl
    | some hacked =>
      cases restored fs lower node with
      | none => rfl
      | some node =>
        show (fs.create hacked.1 node made).bind _ = ((fs.create hacked.1 node made).bind _).bind _
        cases fs.create hacked.1 node made with
        | none => rfl
        | some made =>
          exact restoreAll_entries plain.2 legal.2.2.2 focus (inside.meets hacked.2)

end

/-- Restoring the events of a tree gives what becomes of it. -/
theorem restoreAll_root {source : Node} (plain : source.Plain) (legal : source.Legal) :
    (fs.restoreAll lower root (contentEvents id [] source) (.new root true, none)).map Prod.snd =
      (restored fs lower source).map some := by
  have here : descent root.components root.components = some [] := by
    have same := descent_append root.components []
    rwa [List.map_nil, List.append_nil] at same
  cases source with
  | special mode => exact plain.elim
  | file mode contents =>
    let op := FsOp.createFile root (mode &&& 0o100 == 0o100) contents
    have done : fs.perform root op none = some (some (made op)) := by
      unfold perform
      rw [show descent root.components op.path.components = some [] from here]
    show ((fs.perform root op none).bind _).map Prod.snd = _
    rw [done]
    rfl
  | symlink target =>
    have done : fs.perform root (.symlink root target) none = some (some (.symlink target)) := by
      unfold perform
      rw [show descent root.components (FsOp.symlink (C := Bytes) root target).path.components = some []
        from here]
      rfl
    show ((fs.perform root (.symlink root target) none).bind _).map Prod.snd = _
    rw [done]
    rfl
  | directory entries =>
    let deeper : NarRestorer Bytes :=
      ⟨root, root, none, true, [], [inserted [] (lower (Utf8.lossy []), 0)]⟩
    have entered : In root [] deeper := by
      refine ⟨rfl, rfl, ?_⟩
      rw [List.map_nil, List.append_nil]
    have done : fs.perform root (.createDir root) none = some (some (.directory .nil)) := by
      unfold perform
      rw [show descent root.components (FsOp.createDir (C := Bytes) root).path.components = some []
        from here]
      rfl
    have rest := @restoreAll_entries fs lower root [] id .nil deeper [.endDirectory] entries plain legal
      Focus.root entered
    show ((fs.perform root (.createDir root) none).bind _).map Prod.snd = _
    rw [done]
    refine (congrArg (Option.map Prod.snd) rest).trans ?_
    show ((entriesRestored fs lower [] .nil entries).bind _).map Prod.snd =
      ((entriesRestored fs lower [] .nil entries).map _).map some
    cases entriesRestored fs lower [] .nil entries with
    | none => rfl
    | some result => rfl

end Run

end CaseFs

end Harmonia.Nar
