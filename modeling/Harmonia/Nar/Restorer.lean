import Mathlib.Data.List.Forall2
import Harmonia.Nar.Dumper

/-!
# Restoring a tree

`archive/restorer.rs`. The restorer turns each event into work in the file system, at the path it has
come to. It joins the names of the events to that path as they are. Where every name below the root
is a legal file name, each path is the root with one component for each open directory and one for
the entry; a name that is not takes the path anywhere.
-/

namespace Harmonia.Nar

open Fs Library

/-- What the restorer hands to a background task. -/
inductive FsOp (C : Type) where
  /-- `OpenOptions::open` of a new file, and the writing of its contents. -/
  | createFile (path : Path) (executable : Bool) (reader : C)
  /-- `symlink`. -/
  | symlink (path : Path) (target : Bytes)
  /-- `create_dir`. -/
  | createDir (path : Path)
  deriving DecidableEq, Repr

/-- The path that is handed over. -/
def FsOp.path {C : Type} : FsOp C → Path
  | .createFile path _ _ => path
  | .symlink path _ => path
  | .createDir path => path

/-! ## The case hack -/

/-- `Entries`: how often a name has been met in a directory, but for its case. -/
abbrev CaseEntries := List (Bytes × Nat)

section CaseHack

variable (lower : Bytes → Bytes)

/-- The name with the suffix of the case hack. -/
def hackedName (name : Bytes) (idx : Nat) : Bytes :=
  name ++ caseHackSuffix ++ asciiBytes (Nat.repr idx)

/-- `hack_name`, given `to_lowercase`; the addition to the counter is checked. -/
def hackName (entries : CaseEntries) (name : Bytes) : Option (Bytes × CaseEntries) :=
  let key := lower (Utf8.lossy name)
  match entries.lookup key with
  | some idx =>
    if idx + 1 < 2 ^ 32 then some (hackedName name (idx + 1), inserted entries (key, idx + 1))
    else none
  | none => some (name, inserted entries (key, 0))

end CaseHack

/-! ## The restorer -/

/-- `NarRestorer`. -/
structure NarRestorer (C : Type) where
  /-- Where the tree goes. -/
  root : Path
  /-- The directory the restorer is in. -/
  path : Path
  /-- The work that is being done. -/
  state : Option (FsOp C)
  /-- Whether names are hacked. -/
  useCaseHack : Bool
  /-- The names met in the directory. -/
  entries : CaseEntries
  /-- The names met in the directories around it. -/
  dirStack : List CaseEntries
  deriving DecidableEq, Repr

/-- `join_name`. -/
def joinName (path : Path) (name : Bytes) : Path := if name = [] then path else path.join name

namespace NarRestorer

variable {C : Type}

/-- `new_restorer`. -/
def new (path : Path) (useCaseHack : Bool) : NarRestorer C := ⟨path, path, none, useCaseHack, [], []⟩

section Lower

variable (lower : Bytes → Bytes)

/-- The name an entry is created under, and the names met then. -/
def rename (this : NarRestorer C) (name : Bytes) : Option (Bytes × CaseEntries) :=
  if this.useCaseHack then hackName lower this.entries name else some (name, this.entries)

/-- `start_send`; it panics while work is being done. -/
def startSend (this : NarRestorer C) (event : NarEvent C) : Option (NarRestorer C) :=
  if this.state.isSome then none
  else
    match event with
    | .file name executable _ reader => do
      let (name, entries) ← this.rename lower name
      return { this with
        entries := entries
        state := some (.createFile (joinName this.path name) executable reader) }
    | .symlink name target => do
      let (name, entries) ← this.rename lower name
      return { this with entries := entries, state := some (.symlink (joinName this.path name) target) }
    | .startDirectory name => do
      let (name, entries) ← this.rename lower name
      let path := joinName this.path name
      if this.useCaseHack then
        return { this with
          entries := [], dirStack := entries :: this.dirStack, path := path,
          state := some (.createDir path) }
      else return { this with path := path, state := some (.createDir path) }
    | .endDirectory =>
      if this.useCaseHack then
        some { this with
          entries := this.dirStack.headD [], dirStack := this.dirStack.tail, path := this.path.pop }
      else some { this with path := this.path.pop }

/-- `poll_ready` when the work has been done. -/
def ready (this : NarRestorer C) : NarRestorer C := { this with state := none }

/-- Send events one after the other, while all the work is done without an error: the work that was
handed over, and the restorer at the end. -/
def sendAll : List (NarEvent C) → NarRestorer C → Option (List (FsOp C) × NarRestorer C)
  | [], this => some ([], this)
  | event :: events, this => do
    let next ← this.startSend lower event
    let (ops, last) ← sendAll events next.ready
    return (next.state.toList ++ ops, last)

end Lower

end NarRestorer

/-! ## Names that stay below the root -/

/-- How far a stream of events has come. -/
inductive Phase where
  /-- Nothing has been sent. -/
  | before
  /-- The root is an open directory, with these open below it, the innermost first. -/
  | inside (opens : List Bytes)
  /-- The root is complete; it was a directory or not. -/
  | after (directory : Bool)
  deriving DecidableEq, Repr

/-- The entry in a phase: only the root has no name, and every other has a legal one. -/
def Phase.allows (phase : Phase) (name : Bytes) : Prop :=
  match phase with
  | .before => name = []
  | .inside _ => LegalName name
  | .after _ => False

instance (phase : Phase) (name : Bytes) : Decidable (phase.allows name) :=
  match phase with
  | .before => inferInstanceAs (Decidable (name = []))
  | .inside _ => inferInstanceAs (Decidable (LegalName name))
  | .after _ => inferInstanceAs (Decidable False)

/-- The phase behind an event, if the event has a name that it may have. -/
def Phase.next {C : Type} (phase : Phase) : NarEvent C → Option Phase
  | .file name _ _ _ =>
    if phase.allows name then some (if phase = .before then .after false else phase) else none
  | .symlink name _ =>
    if phase.allows name then some (if phase = .before then .after false else phase) else none
  | .startDirectory name =>
    if phase.allows name then
      match phase with
      | .inside opens => some (.inside (name :: opens))
      | _ => some (.inside [])
    else none
  | .endDirectory =>
    match phase with
    | .inside [] => some (.after true)
    | .inside (_ :: opens) => some (.inside opens)
    | _ => none

/-- The entry itself and the open directories below the root. -/
def Phase.place (phase : Phase) (name : Bytes) : List Bytes :=
  match phase with
  | .inside opens => name :: opens
  | _ => []

/-- Where an event puts something, by the names of the events. -/
def Phase.places {C : Type} (phase : Phase) : NarEvent C → List (List Bytes)
  | .file name _ _ _ => [phase.place name]
  | .symlink name _ => [phase.place name]
  | .startDirectory name => [phase.place name]
  | .endDirectory => []

/-- Where events put something. -/
def allPlaces {C : Type} : Phase → List (NarEvent C) → List (List Bytes)
  | _, [] => []
  | phase, event :: events =>
    phase.places event ++ allPlaces ((phase.next event).getD phase) events

/-- The name that something is created under: its own, or with the case hack its own and a suffix. -/
def Renders (useCaseHack : Bool) (name made : Bytes) : Prop :=
  made = name ∨ useCaseHack = true ∧ ∃ idx, made = hackedName name idx

/-- A path is the root, with these names and nothing else below it, the last first. -/
def Below (root : Path) (useCaseHack : Bool) (names : List Bytes) (path : Path) : Prop :=
  ∃ made, List.Forall₂ (Renders useCaseHack) names made ∧ (∀ name ∈ made, LegalName name) ∧
    path.components = root.components ++ made.reverse.map .normal

/-- Where the restorer is in a phase. -/
def Phase.Rests (phase : Phase) (root : Path) (useCaseHack : Bool) (path : Path) : Prop :=
  match phase with
  | .before => path = root
  | .inside opens => Below root useCaseHack opens path
  | .after true => path = root.pop
  | .after false => path = root

/-- A suffix keeps a name legal. -/
theorem legal_hacked {name : Bytes} (legal : LegalName name) (idx : Nat) :
    LegalName (hackedName name idx) := by
  have long : 2 < (hackedName name idx).length := by
    have suffix : caseHackSuffix.length = 15 := rfl
    rw [hackedName, List.length_append, List.length_append, suffix]
    omega
  have digits : slash ∉ asciiBytes (Nat.repr idx) :=
    fun member => absurd (mem_decimal member).1 (by decide)
  refine ⟨?_, ?_, ?_, ?_⟩
  · intro none
    rw [none] at long
    cases long
  · rw [hackedName, List.mem_append, List.mem_append]
    rintro ((inName | inSuffix) | inDigits)
    · exact legal.whole inName
    · exact absurd inSuffix (by decide)
    · exact digits inDigits
  · intro same
    rw [same] at long
    exact absurd long (by decide)
  · intro same
    rw [same] at long
    exact absurd long (by decide)

/-- What is created under a legal name has a legal name. -/
theorem Renders.legal {useCaseHack : Bool} {name made : Bytes} (renders : Renders useCaseHack name made)
    (legal : LegalName name) : LegalName made := by
  rcases renders with rfl | ⟨_, idx, rfl⟩
  · exact legal
  · exact legal_hacked legal idx

/-- The root is below itself. -/
theorem Below.refl (root : Path) (useCaseHack : Bool) : Below root useCaseHack [] root := by
  refine ⟨[], .nil, ?_, (List.append_nil _).symm⟩
  intro name none
  cases none

/-- A legal name goes one level down. -/
theorem Below.child {root path : Path} {useCaseHack : Bool} {names : List Bytes} {name made : Bytes}
    (below : Below root useCaseHack names path) (renders : Renders useCaseHack name made)
    (legal : LegalName made) : Below root useCaseHack (name :: names) (path.child made) := by
  obtain ⟨others, rendered, all, same⟩ := below
  refine ⟨made :: others, .cons renders rendered, List.forall_mem_cons.mpr ⟨legal, all⟩, ?_⟩
  rw [Path.child_components, same, List.reverse_cons, List.map_append, List.append_assoc]
  rfl

/-- The parent is one level up. -/
theorem Below.pop {root path : Path} {useCaseHack : Bool} {names : List Bytes} {name : Bytes}
    (below : Below root useCaseHack (name :: names) path) : Below root useCaseHack names path.pop := by
  obtain ⟨_, rendered, all, same⟩ := below
  cases rendered with
  | @cons _ made _ others _ rendered =>
    refine ⟨others, rendered, (List.forall_mem_cons.mp all).2, ?_⟩
    have child : path = Path.child ⟨root.components ++ others.reverse.map .normal⟩ made := by
      cases path
      rw [Path.child, Fs.Path.mk.injEq, List.append_assoc, ← List.map_singleton, ← List.map_append,
        ← List.reverse_cons]
      exact same
    rw [child, Path.pop_child]

/-- Nothing is below the root but the root. -/
theorem Below.root {root path : Path} {useCaseHack : Bool} (below : Below root useCaseHack [] path) :
    path = root := by
  obtain ⟨_, rendered, _, same⟩ := below
  cases rendered
  rw [List.reverse_nil, List.map_nil, List.append_nil] at same
  exact congrArg Fs.Path.mk same

namespace NarRestorer

variable {C : Type} {lower : Bytes → Bytes}

/-- The restorer is where the phase says, and nothing is being done. -/
structure Holds (this : NarRestorer C) (root : Path) (useCaseHack : Bool) (phase : Phase) : Prop where
  /-- Nothing is being done. -/
  idle : this.state = none
  /-- Whether names are hacked. -/
  hack : this.useCaseHack = useCaseHack
  /-- No name has been met before the root. -/
  unmet : phase = .before → this.entries = []
  /-- Where the restorer is. -/
  rests : phase.Rests root useCaseHack this.path

/-- What a name is created under. -/
theorem rename_renders {this : NarRestorer C} {name made : Bytes} {entries : CaseEntries}
    (renamed : this.rename lower name = some (made, entries)) : Renders this.useCaseHack name made := by
  unfold rename hackName at renamed
  split at renamed
  case isTrue hack =>
    simp only at renamed
    split at renamed
    · split at renamed
      · rename_i idx _ _
        obtain ⟨rfl, _⟩ := Prod.mk.inj (Option.some.inj renamed)
        exact .inr ⟨hack, idx + 1, rfl⟩
      · cases renamed
    · obtain ⟨rfl, _⟩ := Prod.mk.inj (Option.some.inj renamed)
      exact .inl rfl
  case isFalse =>
    obtain ⟨rfl, _⟩ := Prod.mk.inj (Option.some.inj renamed)
    exact .inl rfl

/-- The first name of a directory is kept. -/
theorem rename_first {this : NarRestorer C} (unmet : this.entries = []) {name made : Bytes}
    {entries : CaseEntries} (renamed : this.rename lower name = some (made, entries)) :
    made = name := by
  unfold rename hackName at renamed
  rw [unmet] at renamed
  split at renamed
  · exact (Prod.mk.inj (Option.some.inj renamed)).1.symm
  · exact (Prod.mk.inj (Option.some.inj renamed)).1.symm

/-- Where an entry goes that has a name it may have. -/
theorem joinName_below {this : NarRestorer C} {root : Path} {useCaseHack : Bool} {phase : Phase}
    (holds : this.Holds root useCaseHack phase) {name made : Bytes} {entries : CaseEntries}
    (allowed : phase.allows name) (renamed : this.rename lower name = some (made, entries)) :
    Below root useCaseHack (phase.place name) (joinName this.path made) := by
  cases phase with
  | before =>
    obtain rfl : name = [] := allowed
    rw [rename_first (holds.unmet rfl) renamed, joinName, if_pos rfl]
    have rests : this.path = root := holds.rests
    rw [rests]
    exact Below.refl root useCaseHack
  | inside opens =>
    have renders := rename_renders renamed
    rw [holds.hack] at renders
    have legal := renders.legal allowed
    rw [joinName, if_neg legal.filled, legal.join]
    exact Below.child holds.rests renders legal
  | after directory => exact allowed.elim

/-- An event is never followed by the phase before the root. -/
theorem Phase.next_ne {phase phase' : Phase} {event : NarEvent C}
    (allowed : phase.next event = some phase') : phase' ≠ .before := by
  rintro rfl
  cases phase with
  | before => cases event <;> simp [Phase.next] at allowed
  | inside opens => cases event <;> cases opens <;> simp [Phase.next] at allowed
  | after directory => cases event <;> simp [Phase.next, Phase.allows] at allowed

/-- The phase behind a file or a symbolic link. -/
theorem Phase.rests_entry {root path : Path} {useCaseHack : Bool} {phase : Phase} {name : Bytes}
    (allowed : phase.allows name) (rests : phase.Rests root useCaseHack path) :
    (if phase = .before then Phase.after false else phase).Rests root useCaseHack path := by
  cases phase with
  | before => exact rests
  | inside opens => exact rests
  | after directory => exact allowed.elim

/-- One event with a name it may have: what is handed over is below the root, and the restorer is
where the next phase says. -/
theorem startSend_below {this next : NarRestorer C} {root : Path} {useCaseHack : Bool}
    {phase phase' : Phase} (holds : this.Holds root useCaseHack phase) {event : NarEvent C}
    (allowed : phase.next event = some phase') (sent : this.startSend lower event = some next) :
    List.Forall₂ (fun names (op : FsOp C) => Below root useCaseHack names op.path)
      (phase.places event) next.state.toList ∧ next.ready.Holds root useCaseHack phase' := by
  have idle : ¬ this.state.isSome = true := by
    rw [holds.idle]
    exact Bool.false_ne_true
  have met : phase' = .before → next.ready.entries = [] :=
    fun same => absurd same (Phase.next_ne allowed)
  unfold startSend at sent
  rw [if_neg idle] at sent
  cases event with
  | file name executable size reader =>
    simp only [Phase.next, Option.ite_none_right_eq_some, Option.some.injEq] at allowed
    obtain ⟨allows, rfl⟩ := allowed
    obtain ⟨⟨made, entries⟩, renamed, same⟩ := Option.bind_eq_some_iff.mp sent
    cases same
    have below := joinName_below holds allows renamed
    exact ⟨.cons below .nil, rfl, holds.hack, met, Phase.rests_entry allows holds.rests⟩
  | symlink name target =>
    simp only [Phase.next, Option.ite_none_right_eq_some, Option.some.injEq] at allowed
    obtain ⟨allows, rfl⟩ := allowed
    obtain ⟨⟨made, entries⟩, renamed, same⟩ := Option.bind_eq_some_iff.mp sent
    cases same
    have below := joinName_below holds allows renamed
    exact ⟨.cons below .nil, rfl, holds.hack, met, Phase.rests_entry allows holds.rests⟩
  | startDirectory name =>
    simp only [Phase.next, Option.ite_none_right_eq_some] at allowed
    obtain ⟨allows, opened⟩ := allowed
    obtain ⟨⟨made, entries⟩, renamed, same⟩ := Option.bind_eq_some_iff.mp sent
    have below := joinName_below holds allows renamed
    have rests : phase'.Rests root useCaseHack (joinName this.path made) := by
      cases phase with
      | before =>
        cases opened
        exact below
      | inside opens =>
        cases opened
        exact below
      | after directory => exact allows.elim
    -- The two branches differ only in the names met.
    have branches : next.state = some (.createDir (joinName this.path made)) ∧
        next.path = joinName this.path made ∧ next.useCaseHack = this.useCaseHack := by
      simp only at same
      split at same <;> cases same <;> exact ⟨rfl, rfl, rfl⟩
    refine ⟨?_, rfl, branches.2.2.trans holds.hack, met, ?_⟩
    · rw [branches.1]
      exact .cons below .nil
    · show phase'.Rests root useCaseHack next.path
      rw [branches.2.1]
      exact rests
  | endDirectory =>
    have branches : next.state = none ∧ next.path = this.path.pop ∧
        next.useCaseHack = this.useCaseHack := by
      simp only at sent
      split at sent <;> cases sent <;> exact ⟨holds.idle, rfl, rfl⟩
    have rests : phase'.Rests root useCaseHack this.path.pop := by
      cases phase with
      | before => cases allowed
      | inside opens =>
        cases opens with
        | nil =>
          cases allowed
          show this.path.pop = root.pop
          rw [Below.root holds.rests]
        | cons first opens =>
          cases allowed
          exact Below.pop holds.rests
      | after directory => cases allowed
    refine ⟨?_, rfl, branches.2.2.trans holds.hack, met, ?_⟩
    · rw [branches.1]
      exact .nil
    · show phase'.Rests root useCaseHack next.path
      rw [branches.2.1]
      exact rests

/-- A run of events with names they may have: everything that is handed over is below the root, and
at the end the restorer is where the phase says. -/
theorem sendAll_below {this last : NarRestorer C} {root : Path} {useCaseHack : Bool}
    {phase phase' : Phase} (holds : this.Holds root useCaseHack phase) {events : List (NarEvent C)}
    (allowed : events.foldlM Phase.next phase = some phase') {ops : List (FsOp C)}
    (sent : this.sendAll lower events = some (ops, last)) :
    List.Forall₂ (fun names (op : FsOp C) => Below root useCaseHack names op.path)
      (allPlaces phase events) ops ∧ phase'.Rests root useCaseHack last.path := by
  induction events generalizing this phase ops with
  | nil =>
    cases sent
    cases allowed
    exact ⟨.nil, holds.rests⟩
  | cons event events ih =>
    obtain ⟨next, here, later⟩ := Option.bind_eq_some_iff.mp allowed
    obtain ⟨middle, first, sent⟩ := Option.bind_eq_some_iff.mp sent
    obtain ⟨⟨others, final⟩, rest, same⟩ := Option.bind_eq_some_iff.mp sent
    cases same
    obtain ⟨one, holds'⟩ := startSend_below holds here first
    obtain ⟨below, rests⟩ := ih holds' later rest
    refine ⟨?_, rests⟩
    rw [allPlaces, here]
    exact List.rel_append one below

end NarRestorer

/-- Restoring stays below the root: in a run whose events have names they may have, every path that is
handed over is the root with one normal component for each open directory below it and one for the
entry, and behind the last event the restorer has left the root again. -/
theorem restore_below {C : Type} (lower : Bytes → Bytes) (root : Path) (useCaseHack : Bool)
    {events : List (NarEvent C)} {phase : Phase}
    (named : events.foldlM Phase.next .before = some phase) {ops : List (FsOp C)}
    {last : NarRestorer C}
    (sent : (NarRestorer.new root useCaseHack).sendAll lower events = some (ops, last)) :
    List.Forall₂ (fun names (op : FsOp C) => Below root useCaseHack names op.path)
      (allPlaces .before events) ops ∧ phase.Rests root useCaseHack last.path := by
  have holds : (NarRestorer.new root useCaseHack : NarRestorer C).Holds root useCaseHack .before :=
    ⟨rfl, rfl, fun _ => rfl, rfl⟩
  exact NarRestorer.sendAll_below holds named sent

/-- `to_lowercase` of ASCII texts. -/
def asciiLower (text : Bytes) : Bytes :=
  text.map fun byte => if 0x41 ≤ byte ∧ byte ≤ 0x5A then byte + 0x20 else byte

/-- A place for a sample. -/
def restoreRoot : Path := ⟨[.rootDir, .normal [0x74]]⟩

/-- Two files whose names differ in case, in a directory of the root. -/
def cases : List (NarEvent Bytes) :=
  [.startDirectory [], .startDirectory [0x64], .file [0x41] false 0 [], .file [0x61] false 0 [],
    .endDirectory, .endDirectory]

/-- The second of two files whose names differ in case gets a suffix, and nothing else. -/
theorem restore_below_cases :
    List.Forall₂ (fun names (op : FsOp Bytes) => Below restoreRoot true names op.path)
      [[], [[0x64]], [[0x41], [0x64]], [[0x61], [0x64]]]
      [.createDir restoreRoot, .createDir (restoreRoot.child [0x64]),
        .createFile ((restoreRoot.child [0x64]).child [0x41]) false [],
        .createFile ((restoreRoot.child [0x64]).child (hackedName [0x61] 1)) false []] ∧
      Phase.Rests (.after true) restoreRoot true ⟨[.rootDir]⟩ :=
  @restore_below Bytes asciiLower restoreRoot true cases (.after true) (by decide) _
    ⟨restoreRoot, ⟨[.rootDir]⟩, none, true, [([], 0)], []⟩ (by decide +kernel)

/-- A name with a separator leads out of the root. -/
theorem restore_escapes :
    (NarRestorer.new restoreRoot false).sendAll id
      [.startDirectory [], .file [dot, dot, slash, 0x78] false 0 ([] : Bytes)] =
        some ([.createDir restoreRoot,
          .createFile ⟨[.rootDir, .normal [0x74], .parentDir, .normal [0x78]]⟩ false []],
          NarRestorer.new restoreRoot false) ∧
      ∀ names : List Bytes, [Component.rootDir, .normal [0x74], .parentDir, .normal [0x78]] ≠
        restoreRoot.components ++ names.map .normal := by
  refine ⟨rfl, ?_⟩
  rintro (_ | ⟨name, names⟩) same
  · cases same
  · cases same

end Harmonia.Nar
