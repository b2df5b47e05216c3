import Harmonia.Store.Derived

/-!
# Derivation inputs

`derivation/inputs.rs`: the inputs of a derivation as a set of paths and as the trie of them. A path
below a derivation is the root of the trie it stands in, the outputs on the way and the output it
names. The trie is built path by path and read back node by node; `Holds` says which paths are in it,
and a trie without empty nodes is determined by them.
-/

namespace Harmonia.Store

open Library

/-! ## The order of paths -/

instance : Std.LawfulEqOrd Text where
  eq_of_compare {left right} same := by
    have bytes : left.bytes = right.bytes := Std.LawfulEqOrd.eq_of_compare same
    cases left
    cases right
    cases bytes
    rfl

instance : Std.LawfulEqOrd OutputName where
  eq_of_compare {left right} same := by
    have text : left.text = right.text := Std.LawfulEqOrd.eq_of_compare same
    cases left
    cases right
    cases text
    rfl

instance : Std.LawfulEqOrd StorePath where
  eq_of_compare {left right} same := by
    have parts := Ordering.then_eq_eq.mp same
    have hash : left.hash.bytes.reverse = right.hash.bytes.reverse :=
      Std.LawfulEqOrd.eq_of_compare parts.1
    have name : left.name.bytes = right.name.bytes := Std.LawfulEqOrd.eq_of_compare parts.2
    obtain ⟨⟨_, _⟩, ⟨_, _⟩⟩ := left
    obtain ⟨⟨_, _⟩, ⟨_, _⟩⟩ := right
    cases List.reverse_injective hash
    cases name
    rfl

instance : Std.LawfulEqOrd Signature where
  eq_of_compare {left right} same := by
    have parts := Ordering.then_eq_eq.mp same
    have keyName : left.keyName = right.keyName := Std.LawfulEqOrd.eq_of_compare parts.1
    have sig : left.sig = right.sig := Std.LawfulEqOrd.eq_of_compare parts.2
    cases left
    cases right
    cases keyName
    cases sig
    rfl

namespace SingleDerivedPath

/-- The derived `Ord`: `Built` before `Opaque`, then field by field. -/
def cmp : SingleDerivedPath → SingleDerivedPath → Ordering
  | built drvPath output, built drvPath' output' => (cmp drvPath drvPath').then (compare output output')
  | built _ _, opaquePath _ => .lt
  | opaquePath _, built _ _ => .gt
  | opaquePath path, opaquePath path' => compare path path'

instance : Ord SingleDerivedPath := ⟨cmp⟩

/-- Paths that compare as equal are equal. -/
theorem cmp_eq {left right : SingleDerivedPath} : cmp left right = .eq ↔ left = right := by
  induction left generalizing right with
  | built drvPath output ih =>
    cases right with
    | built drvPath' output' =>
      rw [cmp, Ordering.then_eq_eq, ih, Std.LawfulEqOrd.compare_eq_iff_eq, built.injEq]
    | opaquePath path' => simp [cmp]
  | opaquePath path =>
    cases right with
    | built drvPath' output' => simp [cmp]
    | opaquePath path' => rw [cmp, Std.LawfulEqOrd.compare_eq_iff_eq, opaquePath.injEq]

/-- The order can be turned round. -/
theorem cmp_swap (left right : SingleDerivedPath) : cmp left right = (cmp right left).swap := by
  induction left generalizing right with
  | built drvPath output ih =>
    cases right with
    | built drvPath' output' =>
      rw [cmp, cmp, Ordering.swap_then, ih drvPath', Std.OrientedOrd.eq_swap (a := output)]
    | opaquePath path' => rfl
  | opaquePath path =>
    cases right with
    | built drvPath' output' => rfl
    | opaquePath path' => exact Std.OrientedOrd.eq_swap

/-- The order is transitive. -/
theorem cmp_trans {left mid right : SingleDerivedPath} (first : cmp left mid = .lt)
    (second : cmp mid right = .lt) : cmp left right = .lt := by
  induction left generalizing mid right with
  | built drvPath output ih =>
    cases right with
    | opaquePath path => rfl
    | built drvPath' output' =>
      cases mid with
      | opaquePath path => cases second
      | built between output'' =>
        rw [cmp, Ordering.then_eq_lt] at first second ⊢
        rcases first with less | ⟨same, less⟩
        · rcases second with less' | ⟨same', -⟩
          · exact .inl (ih less less')
          · exact .inl (cmp_eq.mp same' ▸ less)
        · rcases second with less' | ⟨same', less'⟩
          · exact .inl (cmp_eq.mp same ▸ less')
          · exact .inr ⟨cmp_eq.mp same ▸ same', Std.TransCmp.lt_trans less less'⟩
  | opaquePath path =>
    cases mid with
    | built between output => cases first
    | opaquePath between =>
      cases right with
      | built drvPath output => cases second
      | opaquePath path' => exact @Std.TransCmp.lt_trans _ compare _ _ _ _ first second

instance : Std.TransOrd SingleDerivedPath where
  eq_swap := cmp_swap _ _
  isLE_trans {left mid right} first second := by
    rcases Ordering.isLE_iff_eq_lt_or_eq_eq.mp first with less | same
    · rcases Ordering.isLE_iff_eq_lt_or_eq_eq.mp second with less' | same'
      · exact Ordering.isLE_iff_eq_lt_or_eq_eq.mpr (.inl (cmp_trans less less'))
      · exact (cmp_eq.mp same') ▸ first
    · exact (cmp_eq.mp same) ▸ second

instance : Std.LawfulEqOrd SingleDerivedPath := ⟨cmp_eq.mp⟩

/-- The store path at the root: `root_path`. -/
def rootPath : SingleDerivedPath → StorePath
  | built drvPath _ => drvPath.rootPath
  | opaquePath path => path

/-- The outputs on the way from the root. -/
def steps : SingleDerivedPath → List OutputName
  | built drvPath output => drvPath.steps ++ [output]
  | opaquePath _ => []

/-- The path some steps further. -/
def extend (path : SingleDerivedPath) (names : List OutputName) : SingleDerivedPath :=
  names.foldl built path

/-- A path is its steps from its root. -/
theorem extend_steps (path : SingleDerivedPath) : (opaquePath path.rootPath).extend path.steps = path := by
  induction path with
  | built drvPath output ih =>
    show (drvPath.steps ++ [output]).foldl built (opaquePath drvPath.rootPath) = _
    rw [List.foldl_append]
    exact congrArg (built · output) ih
  | opaquePath path => rfl

/-- The root and the steps of a path some steps further. -/
theorem rootPath_extend (path : SingleDerivedPath) (names : List OutputName) :
    (path.extend names).rootPath = path.rootPath ∧ (path.extend names).steps = path.steps ++ names := by
  induction names generalizing path with
  | nil => exact ⟨rfl, (List.append_nil _).symm⟩
  | cons name rest ih =>
    have later := ih (built path name)
    refine ⟨later.1, later.2.trans ?_⟩
    show (path.steps ++ [name]) ++ rest = _
    rw [List.append_assoc]
    rfl

end SingleDerivedPath

/-! ## The trie -/

mutual

/-- `OutputInputs`: the outputs of a derivation that are needed, and those that are derivations
themselves. -/
inductive OutputInputs where
  | node (outputs : BTreeSet OutputName) (dynamicOutputs : DynamicOutputs)

/-- `BTreeMap<OutputName, OutputInputs>`, by its entries in order. -/
inductive DynamicOutputs where
  | nil
  | cons (name : OutputName) (inputs : OutputInputs) (rest : DynamicOutputs)

end

/-- `OutputInputs::default`. -/
def OutputInputs.default : OutputInputs := .node .empty .nil

/-- The keys of a map. -/
def DynamicOutputs.names : DynamicOutputs → List OutputName
  | nil => []
  | cons name _ rest => name :: rest.names

mutual

/-- The keys of every map ascend, as those of a `BTreeMap` do. -/
def OutputInputs.Sorted : OutputInputs → Prop
  | .node _ dynamicOutputs => Ascending id dynamicOutputs.names ∧ dynamicOutputs.Sorted

/-- The keys of every map below ascend. -/
def DynamicOutputs.Sorted : DynamicOutputs → Prop
  | .nil => True
  | .cons _ inputs rest => inputs.Sorted ∧ rest.Sorted

end

mutual

/-- Every node needs an output or has a node below. -/
def OutputInputs.Full : OutputInputs → Prop
  | .node outputs dynamicOutputs =>
    (outputs.items ≠ [] ∨ dynamicOutputs ≠ .nil) ∧ dynamicOutputs.Full

/-- Every node below needs an output or has a node below. -/
def DynamicOutputs.Full : DynamicOutputs → Prop
  | .nil => True
  | .cons _ inputs rest => inputs.Full ∧ rest.Full

end

mutual

/-- An output is needed some steps below. -/
def OutputInputs.Holds : OutputInputs → List OutputName → OutputName → Prop
  | .node outputs _, [], output => output ∈ outputs.items
  | .node _ dynamicOutputs, name :: names, output => dynamicOutputs.Holds name names output

/-- An output is needed below an entry. -/
def DynamicOutputs.Holds : DynamicOutputs → OutputName → List OutputName → OutputName → Prop
  | .nil, _, _, _ => False
  | .cons other inputs rest, name, names, output =>
    other = name ∧ inputs.Holds names output ∨ rest.Holds name names output

end

/-- `DerivationInputs`. -/
structure DerivationInputs where
  /-- `srcs`. -/
  srcs : BTreeSet StorePath
  /-- `drvs`. -/
  drvs : BTreeMap StorePath OutputInputs
  /-- The maps below are sorted. -/
  sorted : ∀ entry ∈ drvs.entries, entry.2.Sorted

/-- No node is empty. -/
def DerivationInputs.Full (inputs : DerivationInputs) : Prop :=
  ∀ entry ∈ inputs.drvs.entries, entry.2.Full

/-! ## From a set to the trie -/

/-- `entry(name).or_default()` with a change of what is there then. -/
def DynamicOutputs.change (name : OutputName) (f : OutputInputs → OutputInputs) :
    DynamicOutputs → DynamicOutputs
  | nil => cons name (f .default) nil
  | cons other inputs rest =>
    match compare name other with
    | .lt => cons name (f .default) (cons other inputs rest)
    | .eq => cons other (f inputs) rest
    | .gt => cons other inputs (rest.change name f)

/-- A change below an entry of `dynamic_outputs`. -/
def OutputInputs.inside (name : OutputName) (f : OutputInputs → OutputInputs) : OutputInputs → OutputInputs
  | .node outputs dynamicOutputs => .node outputs (dynamicOutputs.change name f)

/-- `outputs.insert`. -/
def OutputInputs.need (output : OutputName) : OutputInputs → OutputInputs
  | .node outputs dynamicOutputs => .node (outputs.insert output) dynamicOutputs

/-- `ensure_slot`, with the change that is made to the slot it returns. -/
def ensureSlot (drvs : BTreeMap StorePath OutputInputs) (k : SingleDerivedPath)
    (f : OutputInputs → OutputInputs) : BTreeMap StorePath OutputInputs :=
  match k with
  | .opaquePath storePath => drvs.change storePath .default f
  | .built drvPath output => ensureSlot drvs drvPath (OutputInputs.inside output f)

/-- One round of the loop of `From<&BTreeSet<SingleDerivedPath>>`. -/
def addPath (inputs : BTreeSet StorePath × BTreeMap StorePath OutputInputs) :
    SingleDerivedPath → BTreeSet StorePath × BTreeMap StorePath OutputInputs
  | .opaquePath storePath => (inputs.1.insert storePath, inputs.2)
  | .built drvPath output => (inputs.1, ensureSlot inputs.2 drvPath (OutputInputs.need output))

/-- A change adds one output, some steps below, and nothing else. -/
structure Adds (f : OutputInputs → OutputInputs) (names : List OutputName) (output : OutputName) : Prop where
  /-- What is needed then. -/
  holds : ∀ inputs others other, (f inputs).Holds others other ↔
    inputs.Holds others other ∨ others = names ∧ other = output
  /-- Maps stay sorted. -/
  sorted : ∀ inputs, inputs.Sorted → (f inputs).Sorted
  /-- No node is left empty. -/
  full : ∀ inputs, inputs = .default ∨ inputs.Full → (f inputs).Full

/-- A default node needs nothing. -/
theorem OutputInputs.not_holds_default (names : List OutputName) (output : OutputName) :
    ¬ OutputInputs.default.Holds names output := by
  cases names with
  | nil => exact List.not_mem_nil
  | cons name rest => exact id

/-- An output that is inserted is needed right there. -/
theorem need_adds (output : OutputName) : Adds (OutputInputs.need output) [] output where
  holds inputs others other := by
    obtain ⟨outputs, dynamicOutputs⟩ := inputs
    cases others with
    | nil =>
      show other ∈ (outputs.insert output).items ↔ other ∈ outputs.items ∨ _
      rw [BTreeSet.mem_insert]
      simp [or_comm]
    | cons name rest => simp [OutputInputs.need, OutputInputs.Holds]
  sorted inputs sorted := by
    obtain ⟨outputs, dynamicOutputs⟩ := inputs
    exact sorted
  full inputs full := by
    obtain ⟨outputs, dynamicOutputs⟩ := inputs
    refine ⟨.inl (place_ne_nil _), ?_⟩
    rcases full with default | full
    · cases default
      trivial
    · exact full.2

section Change

variable {name : OutputName} {f : OutputInputs → OutputInputs} {names : List OutputName}
  {output : OutputName}

/-- The keys of a changed map. -/
theorem DynamicOutputs.names_change (map : DynamicOutputs) :
    (map.change name f).names = place id id name map.names :=
  match map with
  | nil => rfl
  | cons other inputs rest => by
    have later := names_change rest
    unfold change
    show _ = place id id name (other :: rest.names)
    unfold place
    show _ = match compare name other with | .lt => _ | .eq => _ | .gt => _
    cases compare name other with
    | lt => rfl
    | eq => rfl
    | gt => exact congrArg (other :: ·) later

/-- What a changed map needs. -/
theorem Adds.holds_change (adds : Adds f names output) (map : DynamicOutputs) (key : OutputName)
    (others : List OutputName) (other : OutputName) :
    (map.change name f).Holds key others other ↔
      map.Holds key others other ∨ key = name ∧ others = names ∧ other = output :=
  match map with
  | .nil => by
    have fresh := adds.holds .default others other
    have nothing := OutputInputs.not_holds_default others other
    simp only [DynamicOutputs.change, DynamicOutputs.Holds, fresh, nothing, false_or, or_false]
    rw [eq_comm]
  | .cons first inputs rest => by
    have later := adds.holds_change rest key others other
    have fresh := adds.holds .default others other
    have nothing := OutputInputs.not_holds_default others other
    have here := adds.holds inputs others other
    unfold DynamicOutputs.change
    split
    case h_1 =>
      simp only [DynamicOutputs.Holds, fresh, nothing, false_or, eq_comm (a := key) (b := name)]
      rw [or_comm]
    case h_2 same =>
      cases (Std.LawfulEqOrd.eq_of_compare same : name = first)
      simp only [DynamicOutputs.Holds, here, and_or_left, eq_comm (a := key) (b := name)]
      rw [or_right_comm]
    case h_3 =>
      simp only [DynamicOutputs.Holds, later]
      rw [or_assoc]

/-- The maps below a changed map stay sorted. -/
theorem Adds.sorted_change (adds : Adds f names output) (map : DynamicOutputs) (sorted : map.Sorted) :
    (map.change name f).Sorted :=
  match map, sorted with
  | .nil, _ => ⟨adds.sorted .default ⟨List.Pairwise.nil, trivial⟩, trivial⟩
  | .cons first inputs rest, sorted => by
    have later := adds.sorted_change rest sorted.2
    unfold DynamicOutputs.change
    split
    case h_1 => exact ⟨adds.sorted .default ⟨List.Pairwise.nil, trivial⟩, sorted⟩
    case h_2 => exact ⟨adds.sorted inputs sorted.1, sorted.2⟩
    case h_3 => exact ⟨sorted.1, later⟩

/-- A changed map has an entry, and none of its nodes is empty. -/
theorem Adds.full_change (adds : Adds f names output) (map : DynamicOutputs) (full : map.Full) :
    map.change name f ≠ .nil ∧ (map.change name f).Full :=
  match map, full with
  | .nil, _ => ⟨DynamicOutputs.noConfusion, adds.full .default (.inl rfl), trivial⟩
  | .cons first inputs rest, full => by
    have later := adds.full_change rest full.2
    unfold DynamicOutputs.change
    split
    case h_1 => exact ⟨DynamicOutputs.noConfusion, adds.full .default (.inl rfl), full⟩
    case h_2 => exact ⟨DynamicOutputs.noConfusion, adds.full inputs (.inr full.1), full.2⟩
    case h_3 => exact ⟨DynamicOutputs.noConfusion, full.1, later.2⟩

/-- What is added below an entry is one step further. -/
theorem Adds.inside (adds : Adds f names output) :
    Adds (OutputInputs.inside name f) (name :: names) output where
  holds inputs others other := by
    obtain ⟨outputs, dynamicOutputs⟩ := inputs
    cases others with
    | nil => simp [OutputInputs.inside, OutputInputs.Holds]
    | cons key rest =>
      show (dynamicOutputs.change name f).Holds key rest other ↔ _
      rw [adds.holds_change, List.cons.injEq, and_assoc]
      rfl
  sorted inputs sorted := by
    obtain ⟨outputs, dynamicOutputs⟩ := inputs
    refine ⟨?_, adds.sorted_change _ sorted.2⟩
    rw [DynamicOutputs.names_change]
    exact place_ascending (fun _ => rfl) sorted.1
  full inputs full := by
    obtain ⟨outputs, dynamicOutputs⟩ := inputs
    have before : dynamicOutputs.Full := by
      rcases full with default | full
      · cases default
        trivial
      · exact full.2
    have after := @Adds.full_change name f names output adds dynamicOutputs before
    exact ⟨.inr after.1, after.2⟩

end Change

/-- The sources and the derivations that are being gathered need a path. -/
def Needs (inputs : BTreeSet StorePath × BTreeMap StorePath OutputInputs) : SingleDerivedPath → Prop
  | .opaquePath path => path ∈ inputs.1.items
  | .built drvPath output =>
    ∃ entry ∈ inputs.2.entries, entry.1 = drvPath.rootPath ∧ entry.2.Holds drvPath.steps output

/-- The tries that are being gathered are sorted and without empty nodes. -/
def Proper (drvs : BTreeMap StorePath OutputInputs) : Prop :=
  ∀ entry ∈ drvs.entries, entry.2.Sorted ∧ entry.2.Full

/-- What the derivations need after a change at a root. -/
theorem Adds.change_root {f : OutputInputs → OutputInputs} {names : List OutputName}
    {output : OutputName} (adds : Adds f names output) (root key : StorePath)
    (others : List OutputName) (other : OutputName) (entries : List (StorePath × OutputInputs)) :
    (∃ entry ∈ place Prod.fst (fun old => (old.1, f old.2)) (root, f .default) entries,
      entry.1 = key ∧ entry.2.Holds others other) ↔
      (∃ entry ∈ entries, entry.1 = key ∧ entry.2.Holds others other) ∨
        key = root ∧ others = names ∧ other = output := by
  have fresh := adds.holds .default others other
  have nothing := OutputInputs.not_holds_default others other
  induction entries with
  | nil => simp [place, fresh, nothing, eq_comm]
  | cons entry rest ih =>
    have here := adds.holds entry.2 others other
    unfold place
    split
    case h_1 =>
      simp only [List.exists_mem_cons_iff, fresh, nothing, false_or, eq_comm (a := key) (b := root)]
      rw [or_comm]
    case h_2 same =>
      have root_eq : root = entry.1 := Std.LawfulEqOrd.eq_of_compare same
      simp only [List.exists_mem_cons_iff, here, and_or_left, root_eq, eq_comm (a := key) (b := entry.1)]
      rw [or_right_comm]
    case h_3 =>
      simp only [List.exists_mem_cons_iff, ih]
      rw [or_assoc]

/-- What the derivations need after a change of a slot. -/
theorem Adds.ensureSlot {f : OutputInputs → OutputInputs} {names : List OutputName}
    {output : OutputName} (adds : Adds f names output) (drvs : BTreeMap StorePath OutputInputs)
    (k : SingleDerivedPath) (key : StorePath) (others : List OutputName) (other : OutputName) :
    (∃ entry ∈ (ensureSlot drvs k f).entries, entry.1 = key ∧ entry.2.Holds others other) ↔
      (∃ entry ∈ drvs.entries, entry.1 = key ∧ entry.2.Holds others other) ∨
        key = k.rootPath ∧ others = k.steps ++ names ∧ other = output := by
  induction k generalizing f names with
  | opaquePath path => exact adds.change_root path key others other drvs.entries
  | built drvPath step ih =>
    rw [Store.ensureSlot, ih adds.inside, SingleDerivedPath.rootPath, SingleDerivedPath.steps,
      List.append_assoc]
    rfl

/-- A change of a slot leaves proper tries. -/
theorem Adds.proper {f : OutputInputs → OutputInputs} {names : List OutputName} {output : OutputName}
    (adds : Adds f names output) {drvs : BTreeMap StorePath OutputInputs} (proper : Proper drvs)
    (k : SingleDerivedPath) : Proper (Store.ensureSlot drvs k f) := by
  induction k generalizing f names with
  | opaquePath path =>
    intro entry member
    rcases mem_place member with rfl | old | ⟨old, listed, rfl⟩
    · exact ⟨adds.sorted _ ⟨List.Pairwise.nil, trivial⟩, adds.full _ (.inl rfl)⟩
    · exact proper entry old
    · exact ⟨adds.sorted _ (proper old listed).1, adds.full _ (.inr (proper old listed).2)⟩
  | built drvPath step ih => exact ih adds.inside

/-- One round of the loop adds the one path. -/
theorem needs_addPath (inputs : BTreeSet StorePath × BTreeMap StorePath OutputInputs)
    (path other : SingleDerivedPath) : Needs (addPath inputs path) other ↔ Needs inputs other ∨ other = path := by
  cases path with
  | opaquePath path =>
    cases other with
    | opaquePath other =>
      show other ∈ (inputs.1.insert path).items ↔ _
      rw [BTreeSet.mem_insert, or_comm, SingleDerivedPath.opaquePath.injEq]
      rfl
    | built drvPath output =>
      simp only [reduceCtorEq, or_false]
      rfl
  | built drvPath output =>
    cases other with
    | opaquePath other =>
      simp only [reduceCtorEq, or_false]
      rfl
    | built drvPath' output' =>
      have added := (need_adds output).ensureSlot inputs.2 drvPath drvPath'.rootPath drvPath'.steps output'
      rw [List.append_nil] at added
      apply added.trans
      apply or_congr Iff.rfl
      rw [SingleDerivedPath.built.injEq]
      constructor
      · rintro ⟨root, steps, rfl⟩
        refine ⟨?_, rfl⟩
        rw [← drvPath'.extend_steps, root, steps, drvPath.extend_steps]
      · rintro ⟨rfl, rfl⟩
        exact ⟨rfl, rfl, rfl⟩

/-- What has been gathered from some paths. -/
theorem needs_foldl_addPath (paths : List SingleDerivedPath)
    (inputs : BTreeSet StorePath × BTreeMap StorePath OutputInputs) (other : SingleDerivedPath) :
    Needs (paths.foldl addPath inputs) other ↔ Needs inputs other ∨ other ∈ paths := by
  induction paths generalizing inputs with
  | nil => simp
  | cons path rest ih => rw [List.foldl_cons, ih, needs_addPath, List.mem_cons, or_assoc]

/-- What has been gathered is proper. -/
theorem proper_foldl_addPath (paths : List SingleDerivedPath)
    {inputs : BTreeSet StorePath × BTreeMap StorePath OutputInputs} (proper : Proper inputs.2) :
    Proper (paths.foldl addPath inputs).2 := by
  induction paths generalizing inputs with
  | nil => exact proper
  | cons path rest ih =>
    apply ih
    cases path with
    | opaquePath path => exact proper
    | built drvPath output => exact (need_adds output).proper proper drvPath

/-- What is gathered at first is proper. -/
theorem proper_empty : Proper .empty := List.forall_mem_nil _

/-- `From<&BTreeSet<SingleDerivedPath>> for DerivationInputs`. -/
def DerivationInputs.ofPaths (paths : BTreeSet SingleDerivedPath) : DerivationInputs where
  srcs := (paths.items.foldl addPath (.empty, .empty)).1
  drvs := (paths.items.foldl addPath (.empty, .empty)).2
  sorted entry member := (proper_foldl_addPath paths.items proper_empty entry member).1

/-! ## From the trie to a set -/

mutual

/-- `expand_outputs`. -/
def expandOutputs (paths : BTreeSet SingleDerivedPath) (drvPath : SingleDerivedPath) :
    OutputInputs → BTreeSet SingleDerivedPath
  | .node outputs dynamicOutputs =>
    expandDynamic ((outputs.items.map (.built drvPath)).foldl .insert paths) drvPath dynamicOutputs

/-- The loop of `expand_outputs` over the dynamic outputs. -/
def expandDynamic (paths : BTreeSet SingleDerivedPath) (drvPath : SingleDerivedPath) :
    DynamicOutputs → BTreeSet SingleDerivedPath
  | .nil => paths
  | .cons outputName nestedOutputs rest =>
    expandDynamic (expandOutputs paths (.built drvPath outputName) nestedOutputs) drvPath rest

end

/-- `From<&DerivationInputs> for BTreeSet<SingleDerivedPath>`. -/
def DerivationInputs.toPaths (inputs : DerivationInputs) : BTreeSet SingleDerivedPath :=
  inputs.drvs.entries.foldl (fun paths entry => expandOutputs paths (.opaquePath entry.1) entry.2)
    ((inputs.srcs.items.map .opaquePath).foldl .insert .empty)

mutual

/-- What `expand_outputs` adds: one path for each output that is needed below. -/
theorem mem_expandOutputs (paths : BTreeSet SingleDerivedPath) (drvPath : SingleDerivedPath)
    (inputs : OutputInputs) (other : SingleDerivedPath) :
    other ∈ (expandOutputs paths drvPath inputs).items ↔
      other ∈ paths.items ∨ ∃ names output, inputs.Holds names output ∧
        other = .built (drvPath.extend names) output :=
  match inputs with
  | .node outputs dynamicOutputs => by
    rw [expandOutputs, mem_expandDynamic, BTreeSet.mem_foldl_insert, or_assoc]
    apply or_congr Iff.rfl
    constructor
    · rintro (direct | ⟨name, names, output, holds, rfl⟩)
      · obtain ⟨output, listed, rfl⟩ := List.mem_map.mp direct
        exact ⟨[], output, listed, rfl⟩
      · exact ⟨name :: names, output, holds, rfl⟩
    · rintro ⟨names, output, holds, rfl⟩
      cases names with
      | nil => exact .inl (List.mem_map_of_mem holds)
      | cons name names => exact .inr ⟨name, names, output, holds, rfl⟩

/-- What the loop over the dynamic outputs adds. -/
theorem mem_expandDynamic (paths : BTreeSet SingleDerivedPath) (drvPath : SingleDerivedPath)
    (map : DynamicOutputs) (other : SingleDerivedPath) :
    other ∈ (expandDynamic paths drvPath map).items ↔
      other ∈ paths.items ∨ ∃ name names output, map.Holds name names output ∧
        other = .built (drvPath.extend (name :: names)) output :=
  match map with
  | .nil => by simp [expandDynamic, DynamicOutputs.Holds]
  | .cons outputName nestedOutputs rest => by
    rw [expandDynamic, mem_expandDynamic _ _ rest, mem_expandOutputs _ _ nestedOutputs, or_assoc]
    apply or_congr Iff.rfl
    constructor
    · rintro (⟨names, output, holds, rfl⟩ | ⟨name, names, output, holds, rfl⟩)
      · exact ⟨outputName, names, output, .inl ⟨rfl, holds⟩, rfl⟩
      · exact ⟨name, names, output, .inr holds, rfl⟩
    · rintro ⟨name, names, output, (⟨rfl, holds⟩ | holds), rfl⟩
      · exact .inl ⟨names, output, holds, rfl⟩
      · exact .inr ⟨name, names, output, holds, rfl⟩

end

/-- What the loop over the derivations adds. -/
theorem mem_foldl_expandOutputs (entries : List (StorePath × OutputInputs))
    (paths : BTreeSet SingleDerivedPath) (other : SingleDerivedPath) :
    other ∈ (entries.foldl (fun paths entry => expandOutputs paths (.opaquePath entry.1) entry.2)
      paths).items ↔ other ∈ paths.items ∨ ∃ entry ∈ entries, ∃ names output,
        entry.2.Holds names output ∧ other = .built ((SingleDerivedPath.opaquePath entry.1).extend names) output := by
  induction entries generalizing paths with
  | nil => simp
  | cons entry rest ih => rw [List.foldl_cons, ih, mem_expandOutputs, List.exists_mem_cons_iff, or_assoc]

/-- The set holds the paths that the trie needs. -/
theorem DerivationInputs.mem_toPaths (inputs : DerivationInputs) (other : SingleDerivedPath) :
    other ∈ inputs.toPaths.items ↔ Needs (inputs.srcs, inputs.drvs) other := by
  rw [toPaths, mem_foldl_expandOutputs, BTreeSet.mem_foldl_insert]
  cases other with
  | opaquePath path =>
    simp only [List.mem_map, SingleDerivedPath.opaquePath.injEq, exists_eq_right, reduceCtorEq, and_false,
      exists_false, or_false]
    show _ ∈ [] ∨ _ ↔ _
    simp [Needs]
  | built drvPath output =>
    simp only [List.mem_map, reduceCtorEq, and_false, exists_false, or_false]
    show _ ∈ [] ∨ _ ↔ ∃ entry ∈ inputs.drvs.entries, _
    simp only [List.not_mem_nil, false_or]
    apply exists_congr
    intro entry
    apply and_congr_right
    intro listed
    constructor
    · rintro ⟨names, needed, holds, same⟩
      obtain ⟨rfl, rfl⟩ := SingleDerivedPath.built.inj same
      obtain ⟨root, steps⟩ := SingleDerivedPath.rootPath_extend (.opaquePath entry.1) names
      rw [root, steps]
      exact ⟨rfl, holds⟩
    · rintro ⟨root, holds⟩
      refine ⟨drvPath.steps, output, holds, ?_⟩
      rw [root, drvPath.extend_steps]

/-! ## Tries are determined by what they need -/

mutual

/-- A node that is not empty, and none below is, needs something. -/
theorem OutputInputs.Full.some {inputs : OutputInputs} (full : inputs.Full) :
    ∃ names output, inputs.Holds names output :=
  match inputs, full with
  | .node outputs dynamicOutputs, full => by
    rcases full.1 with direct | dynamic
    · obtain ⟨output, listed⟩ := List.exists_mem_of_ne_nil _ direct
      exact ⟨[], output, listed⟩
    · obtain ⟨name, names, output, holds⟩ := DynamicOutputs.Full.some full.2 dynamic
      exact ⟨name :: names, output, holds⟩

/-- A map that is not empty needs something. -/
theorem DynamicOutputs.Full.some {map : DynamicOutputs} (full : map.Full) (nonempty : map ≠ .nil) :
    ∃ name names output, map.Holds name names output :=
  match map, full, nonempty with
  | .nil, _, nonempty => absurd rfl nonempty
  | .cons name inputs rest, full, _ => by
    obtain ⟨names, output, holds⟩ := OutputInputs.Full.some full.1
    exact ⟨name, names, output, .inl ⟨rfl, holds⟩⟩

end

/-- What a map needs stands below one of its keys. -/
theorem DynamicOutputs.Holds.listed {map : DynamicOutputs} {name : OutputName}
    {names : List OutputName} {output : OutputName} (holds : map.Holds name names output) :
    name ∈ map.names :=
  match map, holds with
  | .cons _ _ _, .inl ⟨same, _⟩ => same ▸ List.mem_cons_self
  | .cons _ _ rest, .inr later => List.mem_cons_of_mem _ (@Holds.listed rest _ _ _ later)

/-- No name is before itself. -/
theorem OutputName.compare_self_ne (name : OutputName) : compare name name ≠ .lt := by
  rw [Std.ReflOrd.compare_self]
  exact Ordering.noConfusion

/-- What a map needs below its first key is what its first entry needs. -/
theorem DynamicOutputs.holds_first {name : OutputName} {inputs : OutputInputs} {rest : DynamicOutputs}
    (above : ∀ other ∈ rest.names, compare name other = .lt) (names : List OutputName) (output : OutputName) :
    (cons name inputs rest).Holds name names output ↔ inputs.Holds names output := by
  constructor
  · rintro (⟨-, here⟩ | later)
    · exact here
    · exact absurd (above name later.listed) (OutputName.compare_self_ne name)
  · exact fun here => .inl ⟨rfl, here⟩

/-- What the other entries of a map need. -/
theorem DynamicOutputs.holds_rest {name : OutputName} {inputs : OutputInputs} {rest : DynamicOutputs}
    (above : ∀ other ∈ rest.names, compare name other = .lt) (key : OutputName) (names : List OutputName)
    (output : OutputName) :
    rest.Holds key names output ↔ name ≠ key ∧ (cons name inputs rest).Holds key names output := by
  constructor
  · intro later
    refine ⟨?_, .inr later⟩
    rintro rfl
    exact OutputName.compare_self_ne name (above name later.listed)
  · rintro ⟨other, ⟨same, -⟩ | later⟩
    · exact absurd same other
    · exact later

/-- Sorted maps without empty nodes that need the same have the same first key. -/
theorem DynamicOutputs.first_eq {name name' : OutputName} {inputs inputs' : OutputInputs}
    {rest rest' : DynamicOutputs} (above : ∀ other ∈ rest.names, compare name other = .lt)
    (above' : ∀ other ∈ rest'.names, compare name' other = .lt) (full : inputs.Full) (full' : inputs'.Full)
    (same : ∀ key names output, (cons name inputs rest).Holds key names output ↔
      (cons name' inputs' rest').Holds key names output) : name = name' := by
  have listed : name ∈ (cons name' inputs' rest').names := by
    obtain ⟨names, output, holds⟩ := full.some
    exact ((same name names output).mp (.inl ⟨rfl, holds⟩)).listed
  have listed' : name' ∈ (cons name inputs rest).names := by
    obtain ⟨names, output, holds⟩ := full'.some
    exact ((same name' names output).mpr (.inl ⟨rfl, holds⟩)).listed
  rcases List.mem_cons.mp listed with here | later
  · exact here
  rcases List.mem_cons.mp listed' with here | later'
  · exact here.symm
  have less := above name' later'
  have greater := above' name later
  exact absurd (Std.TransCmp.lt_trans less greater) (OutputName.compare_self_ne name)

mutual

/-- Sorted tries without empty nodes that need the same are equal. -/
theorem OutputInputs.ext_holds {left right : OutputInputs} (sorted : left.Sorted) (sorted' : right.Sorted)
    (full : left.Full) (full' : right.Full)
    (same : ∀ names output, left.Holds names output ↔ right.Holds names output) : left = right :=
  match left, right, sorted, sorted', full, full', same with
  | .node outputs dynamicOutputs, .node outputs' dynamicOutputs', sorted, sorted', full, full', same => by
    have direct : outputs = outputs' := BTreeSet.ext_mem fun output => same [] output
    have dynamic : dynamicOutputs = dynamicOutputs' :=
      DynamicOutputs.ext_holds sorted.1 sorted'.1 sorted.2 sorted'.2 full.2 full'.2
        fun name names output => same (name :: names) output
    rw [direct, dynamic]

/-- Sorted maps without empty nodes that need the same are equal. -/
theorem DynamicOutputs.ext_holds {left right : DynamicOutputs} (ascending : Ascending id left.names)
    (ascending' : Ascending id right.names) (sorted : left.Sorted) (sorted' : right.Sorted)
    (full : left.Full) (full' : right.Full)
    (same : ∀ key names output, left.Holds key names output ↔ right.Holds key names output) :
    left = right :=
  match left, right, ascending, ascending', sorted, sorted', full, full', same with
  | .nil, .nil, _, _, _, _, _, _, _ => rfl
  | .nil, .cons name' inputs' rest', _, _, _, _, _, full', same => by
    obtain ⟨names, output, holds⟩ := full'.1.some
    exact ((same name' names output).mpr (.inl ⟨rfl, holds⟩)).elim
  | .cons name inputs rest, .nil, _, _, _, _, full, _, same => by
    obtain ⟨names, output, holds⟩ := full.1.some
    exact ((same name names output).mp (.inl ⟨rfl, holds⟩)).elim
  | .cons name inputs rest, .cons name' inputs' rest', ascending, ascending', sorted, sorted', full, full',
      same => by
    obtain ⟨above, ascendingRest⟩ := List.pairwise_cons.mp ascending
    obtain ⟨above', ascendingRest'⟩ := List.pairwise_cons.mp ascending'
    change ∀ other ∈ rest.names, compare name other = .lt at above
    change ∀ other ∈ rest'.names, compare name' other = .lt at above'
    cases DynamicOutputs.first_eq above above' full.1 full'.1 same
    have first : inputs = inputs' := by
      apply OutputInputs.ext_holds sorted.1 sorted'.1 full.1 full'.1
      intro names output
      rw [← DynamicOutputs.holds_first above names output, same,
        DynamicOutputs.holds_first above' names output]
    have later : rest = rest' := by
      apply DynamicOutputs.ext_holds ascendingRest ascendingRest' sorted.2 sorted'.2 full.2 full'.2
      intro key names output
      rw [@DynamicOutputs.holds_rest name inputs rest above key names output, same,
        ← DynamicOutputs.holds_rest above' key names output]
    rw [first, later]

end

/-- Derivations with proper tries are determined by the paths they need. -/
theorem entries_subset {srcs srcs' : BTreeSet StorePath} {left right : BTreeMap StorePath OutputInputs}
    (proper : Proper left) (proper' : Proper right)
    (same : ∀ path, Needs (srcs, left) path ↔ Needs (srcs', right) path)
    {entry : StorePath × OutputInputs} (listed : entry ∈ left.entries) : entry ∈ right.entries := by
  obtain ⟨root, inputs⟩ := entry
  -- What the two maps need below the root.
  have below (names : List OutputName) (output : OutputName) :
      (∃ entry ∈ left.entries, entry.1 = root ∧ entry.2.Holds names output) ↔
        ∃ entry ∈ right.entries, entry.1 = root ∧ entry.2.Holds names output := by
    have needs := same (.built ((SingleDerivedPath.opaquePath root).extend names) output)
    obtain ⟨rootSame, steps⟩ := SingleDerivedPath.rootPath_extend (.opaquePath root) names
    simpa only [Needs, rootSame, steps, SingleDerivedPath.rootPath, SingleDerivedPath.steps,
      List.nil_append] using needs
  obtain ⟨names, output, holds⟩ := (proper _ listed).2.some
  obtain ⟨⟨root', inputs'⟩, listed', rfl, -⟩ := (below names output).mp ⟨_, listed, rfl, holds⟩
  have tries : inputs = inputs' := by
    apply OutputInputs.ext_holds (proper _ listed).1 (proper' _ listed').1 (proper _ listed).2
      (proper' _ listed').2
    intro names output
    constructor
    · intro holds
      obtain ⟨other, member, root, holds'⟩ := (below names output).mp ⟨_, listed, rfl, holds⟩
      cases right.sorted.unique member listed' root
      exact holds'
    · intro holds
      obtain ⟨other, member, root, holds'⟩ := (below names output).mpr ⟨_, listed', rfl, holds⟩
      cases left.sorted.unique member listed root
      exact holds'
  exact tries ▸ listed'

namespace DerivationInputs

/-- Inputs with the same sources and derivations are equal. -/
theorem ext {left right : DerivationInputs} (srcs : left.srcs = right.srcs)
    (drvs : left.drvs = right.drvs) : left = right := by
  cases left
  cases right
  cases srcs
  cases drvs
  rfl

/-- The paths that are needed by what is made of a set are those of the set. -/
theorem needs_ofPaths (paths : BTreeSet SingleDerivedPath) (path : SingleDerivedPath) :
    Needs ((ofPaths paths).srcs, (ofPaths paths).drvs) path ↔ path ∈ paths.items := by
  have gathered := needs_foldl_addPath paths.items (.empty, .empty) path
  have nothing : ¬ Needs (.empty, .empty) path := by
    cases path with
    | opaquePath path => exact List.not_mem_nil
    | built drvPath output =>
      rintro ⟨entry, listed, -⟩
      cases listed
  exact gathered.trans (or_iff_right nothing)

/-- A set survives its trie, and a trie without empty nodes survives its set. -/
theorem ofPaths_toPaths_inverse :
    (∀ paths : BTreeSet SingleDerivedPath, (ofPaths paths).toPaths = paths) ∧
      ∀ inputs : DerivationInputs, inputs.Full → ofPaths inputs.toPaths = inputs := by
  constructor
  · intro paths
    apply BTreeSet.ext_mem
    intro path
    rw [mem_toPaths, needs_ofPaths]
  · intro inputs full
    have same (path : SingleDerivedPath) : Needs ((ofPaths inputs.toPaths).srcs,
        (ofPaths inputs.toPaths).drvs) path ↔ Needs (inputs.srcs, inputs.drvs) path := by
      rw [needs_ofPaths, mem_toPaths]
    have proper : Proper (ofPaths inputs.toPaths).drvs := proper_foldl_addPath _ proper_empty
    have proper' : Proper inputs.drvs := fun entry listed => ⟨inputs.sorted entry listed, full entry listed⟩
    apply ext
    · exact BTreeSet.ext_mem fun path => same (.opaquePath path)
    · apply BTreeMap.ext
      apply (ofPaths inputs.toPaths).drvs.sorted.ext inputs.drvs.sorted
      intro entry
      constructor
      · exact entries_subset proper proper' same
      · exact entries_subset proper' proper fun path => (same path).symm

/-- One derivation of which one output is needed, and an output of that output. -/
def sample : DerivationInputs where
  srcs := .empty
  drvs := ⟨[(⟨.zero, ⟨asciiBytes "d.drv", by decide +kernel⟩⟩, .node (.insert .empty .default)
    (.cons .default (.node (.insert .empty .default) .nil) .nil))], List.pairwise_singleton _ _⟩
  sorted entry member := by
    cases List.mem_singleton.mp member
    exact ⟨List.pairwise_singleton _ _, ⟨List.Pairwise.nil, trivial⟩, trivial⟩

/-- The sample inputs are full, and the set of their paths gives them back. -/
theorem ofPaths_toPaths_sample : sample.Full ∧ ofPaths sample.toPaths = sample := by
  have full : sample.Full := by
    intro entry member
    cases List.mem_singleton.mp member
    exact ⟨.inl (List.cons_ne_nil _ _), ⟨.inl (List.cons_ne_nil _ _), trivial⟩, trivial⟩
  exact ⟨full, ofPaths_toPaths_inverse.2 sample full⟩

end DerivationInputs

end Harmonia.Store
