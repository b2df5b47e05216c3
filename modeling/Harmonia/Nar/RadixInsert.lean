import Harmonia.Nar.RadixTree

/-!
# Filling the token matcher

`insert` of `archive/radix_tree.rs`. A token leaves the tree at a branch, which gets one more edge, or inside an
edge, which is cut in two. What every insertion keeps is `Built`: the edges of branches lie in blocks of their own,
no two edges of a branch start with the same byte, and every node but the first hangs on an edge. Such a tree
recognises the tokens that were inserted and nothing else.
-/

namespace Harmonia.Nar

namespace RTree

variable {N E B : Nat} {R : Type}

/-! ## Trees that were built -/

/-- An edge below a node. -/
def Below (t : RTree N E B R) (idx e : Nat) (edge : REdge) : Prop :=
  e ∈ t.edgesOf idx ∧ t.edges[e]? = some edge

/-- The edges of a branch. -/
theorem mem_edgesOf {t : RTree N E B R} {idx e : Nat} :
    e ∈ t.edgesOf idx ↔ ∃ start len, t.nodes[idx]? = some (.branch start len) ∧ start ≤ e ∧ e < start + len := by
  unfold edgesOf
  constructor
  · intro member
    split at member
    · rename_i start len found
      exact ⟨start, len, found, List.mem_range'_1.mp member⟩
    · cases member
  · rintro ⟨start, len, found, range⟩
    rw [found]
    exact List.mem_range'_1.mpr range

/-- What insertions keep of a tree and its labels. -/
structure Built (t : RTree N E B R) (label : Nat → Bytes) : Prop where
  /-- The labels are those of the tree. -/
  labelled : t.Labelled label
  /-- No branch is barren. -/
  bears : t.Bears label
  /-- There is a root. -/
  used : 0 < t.nodesLen
  /-- Nodes that are not in use are branches without edges. -/
  unused : ∀ k, t.nodesLen ≤ k → k < t.nodes.length → t.nodes[k]? = some (.branch 0 0) ∧ label k = []
  /-- Every branch has a block of edges. -/
  block : ∀ i start len, i < t.nodesLen → t.nodes[i]? = some (.branch start len) →
    len ≤ B ∧ start + B ≤ t.edgesLen
  /-- The blocks of two branches lie apart. -/
  apart : ∀ i j start len start' len', i < t.nodesLen → j < t.nodesLen → i ≠ j →
    t.nodes[i]? = some (.branch start len) → t.nodes[j]? = some (.branch start' len') →
    start + B ≤ start' ∨ start' + B ≤ start
  /-- No two edges of a branch start with the same byte. -/
  distinct : ∀ i e e' edge edge', t.Below i e edge → t.Below i e' edge' →
    edge.prefixBytes.head? = edge'.prefixBytes.head? → e = e'
  /-- Every node but the root hangs on an edge. -/
  hangs : ∀ k, 0 < k → k < t.nodesLen → ∃ i e edge, t.Below i e edge ∧ edge.nodeIdx = k

section Built

variable {t : RTree N E B R} {label : Nat → Bytes}

/-- What an edge below a node is. -/
theorem Labelled.below (labelled : t.Labelled label) {i e : Nat} {edge : REdge} (below : t.Below i e edge) :
    edge.prefixBytes ≠ [] ∧ edge.nodeIdx < t.nodes.length ∧ label edge.nodeIdx = label i ++ edge.prefixBytes := by
  obtain ⟨member, found⟩ := below
  obtain ⟨start, len, branch, -⟩ := mem_edgesOf.mp member
  obtain ⟨inside, -⟩ := List.getElem?_eq_some_iff.mp branch
  obtain ⟨other, found', law⟩ := labelled.edge inside member
  rw [found] at found'
  cases found'
  exact law

/-- Trees are labelled by what their edges add. -/
theorem labelled_of_below (inside : 0 < t.nodes.length) (root : label 0 = [])
    (there : ∀ i e, e ∈ t.edgesOf i → ∃ edge, t.edges[e]? = some edge)
    (adds : ∀ i e edge, t.Below i e edge → edge.prefixBytes ≠ [] ∧ edge.nodeIdx < t.nodes.length ∧
      label edge.nodeIdx = label i ++ edge.prefixBytes) : t.Labelled label := by
  refine ⟨inside, root, ?_⟩
  intro i _ e member
  obtain ⟨edge, found⟩ := there i e member
  rw [found]
  exact adds i e edge ⟨member, found⟩

namespace Built

/-- Only nodes in use have edges. -/
theorem used_of_below (built : t.Built label) {i e : Nat} (member : e ∈ t.edgesOf i) : i < t.nodesLen := by
  apply Nat.lt_of_not_le
  intro late
  obtain ⟨start, len, branch, range⟩ := mem_edgesOf.mp member
  obtain ⟨inside, -⟩ := List.getElem?_eq_some_iff.mp branch
  obtain ⟨empty, -⟩ := built.unused i late inside
  rw [branch] at empty
  cases empty
  omega

/-- Every edge leads to a node in use that is not the root. -/
theorem target (built : t.Built label) {i e : Nat} {edge : REdge} (below : t.Below i e edge) :
    0 < edge.nodeIdx ∧ edge.nodeIdx < t.nodesLen := by
  obtain ⟨nonempty, inside, longer⟩ := built.labelled.below below
  have named : label edge.nodeIdx ≠ [] := by
    rw [longer]
    exact fun none => nonempty (List.append_eq_nil_iff.mp none).2
  constructor
  · apply Nat.pos_of_ne_zero
    intro root
    rw [root] at named
    exact named built.labelled.2.1
  · apply Nat.lt_of_not_le
    intro late
    exact named (built.unused _ late inside).2

/-- An edge lies in one block. -/
theorem owner (built : t.Built label) {i j e : Nat} (mine : e ∈ t.edgesOf i) (yours : e ∈ t.edgesOf j) : i = j := by
  obtain ⟨start, len, branch, range⟩ := mem_edgesOf.mp mine
  obtain ⟨start', len', branch', range'⟩ := mem_edgesOf.mp yours
  have block := built.block i start len (built.used_of_below mine) branch
  have block' := built.block j start' len' (built.used_of_below yours) branch'
  apply Classical.byContradiction
  intro differ
  have gap := built.apart i j start len start' len' (built.used_of_below mine) (built.used_of_below yours) differ
    branch branch'
  omega

/-- An edge below a node is in the array. -/
theorem stored (built : t.Built label) {i e : Nat} (member : e ∈ t.edgesOf i) : e < t.edges.length := by
  obtain ⟨start, len, branch, -⟩ := mem_edgesOf.mp member
  obtain ⟨inside, -⟩ := List.getElem?_eq_some_iff.mp branch
  obtain ⟨edge, found, -⟩ := built.labelled.edge inside member
  exact (List.getElem?_eq_some_iff.mp found).1

/-- An edge lies among those that were handed out. -/
theorem handed (built : t.Built label) {i e : Nat} (member : e ∈ t.edgesOf i) : e < t.edgesLen := by
  obtain ⟨start, len, branch, range⟩ := mem_edgesOf.mp member
  have block := built.block i start len (built.used_of_below member) branch
  omega

end Built

/-! ## Walking down -/

/-- The search of a branch finds the edge that starts with a byte. -/
theorem findEdge_found {edges : List REdge} {byte : UInt8} {start len e : Nat} {edge : REdge}
    (range : start ≤ e ∧ e < start + len) (found : edges[e]? = some edge)
    (head : edge.prefixBytes.head? = some byte)
    (there : ∀ other, start ≤ other → other < start + len →
      ∃ edge first, edges[other]? = some edge ∧ edge.prefixBytes.head? = some first)
    (distinct : ∀ other edge, start ≤ other → other < start + len → edges[other]? = some edge →
      edge.prefixBytes.head? = some byte → other = e) :
    findEdge edges byte start len = some (some e) := by
  induction len generalizing start with
  | zero => omega
  | succ len ih =>
    obtain ⟨first, head', found', starts⟩ := there start (Nat.le_refl _) (by omega)
    have zero : first.prefixBytes[0]? = some head' := by rw [← starts, List.head?_eq_getElem?]
    by_cases same : byte = head'
    · have here : start = e := distinct start first (Nat.le_refl _) (by omega) found' (same ▸ starts)
      simp only [findEdge, found', zero, Option.bind_eq_bind, Option.bind_some]
      rw [if_pos same, here]
    · have later : start ≠ e := by
        intro here
        rw [here, found] at found'
        cases found'
        rw [head] at starts
        exact same (Option.some.inj starts)
      have rest := @ih (start + 1) ⟨by omega, by omega⟩
        (fun other low high => there other (by omega) (by omega))
        (fun other edge low high => distinct other edge (by omega) (by omega))
      simp only [findEdge, found', zero, Option.bind_eq_bind, Option.bind_some]
      rw [if_neg same, rest]

/-- The rest of an edge is walked to the node below. -/
theorem lookup_edge {e : Nat} {edge : REdge} (found : t.edges[e]? = some edge) (rest : Bytes) (parsed : Nat)
    {read : Nat} (within : read ≤ edge.prefixBytes.length) :
    t.lookup (edge.prefixBytes.drop read ++ rest) (.edge e read) parsed =
      t.lookup rest (.node edge.nodeIdx) (parsed + (edge.prefixBytes.length - read)) := by
  obtain ⟨left, size⟩ : ∃ left, left = edge.prefixBytes.length - read := ⟨_, rfl⟩
  induction left generalizing read parsed with
  | zero =>
    have whole : read = edge.prefixBytes.length := by omega
    have settles : t.settle (.edge e read) = some (.node edge.nodeIdx) := by simp [settle, found, whole]
    rw [whole, List.drop_length, List.nil_append, Nat.sub_self, Nat.add_zero, ← whole]
    exact lookup_settled settles rest parsed
  | succ left ih =>
    have short : read < edge.prefixBytes.length := by omega
    have later := ih (parsed + 1) (show read + 1 ≤ edge.prefixBytes.length by omega) (by omega)
    have settles : t.settle (.edge e read) = some (.edge e read) := by simp [settle, found, short]
    have byte : edge.prefixBytes[read]? = some edge.prefixBytes[read] := List.getElem?_eq_getElem short
    rw [List.drop_eq_getElem_cons short, List.cons_append]
    simp only [lookup, settles, found, byte, Option.bind_eq_bind, Option.bind_some, if_true]
    rw [later]
    congr 1
    omega

namespace Built

/-- An edge below a node is walked. -/
theorem walk_edge (built : t.Built label) {i e : Nat} {edge : REdge} (below : t.Below i e edge) (rest : Bytes)
    (parsed : Nat) :
    t.lookup (edge.prefixBytes ++ rest) (.node i) parsed =
      t.lookup rest (.node edge.nodeIdx) (parsed + edge.prefixBytes.length) := by
  obtain ⟨start, len, branch, range⟩ := mem_edgesOf.mp below.1
  obtain ⟨byte, tail, split⟩ := List.exists_cons_of_ne_nil (built.labelled.below below).1
  have head : edge.prefixBytes.head? = some byte := by rw [split]; rfl
  have searched : findEdge t.edges byte start len = some (some e) := by
    apply findEdge_found range below.2 head
    · intro other low high
      have member : other ∈ t.edgesOf i := mem_edgesOf.mpr ⟨start, len, branch, low, high⟩
      obtain ⟨inside, -⟩ := List.getElem?_eq_some_iff.mp branch
      obtain ⟨edge', found, nonempty, -⟩ := built.labelled.edge inside member
      obtain ⟨first, more, split'⟩ := List.exists_cons_of_ne_nil nonempty
      exact ⟨edge', first, found, by rw [split']; rfl⟩
    · intro other edge' low high found starts
      have member : other ∈ t.edgesOf i := mem_edgesOf.mpr ⟨start, len, branch, low, high⟩
      exact built.distinct i other e edge' edge ⟨member, found⟩ below (starts.trans head.symm)
  have settles : t.settle (.node i) = some (.node i) := rfl
  have one : edge.prefixBytes.drop 1 = tail := by rw [split]; rfl
  have walked := lookup_edge below.2 rest (parsed + 1) (show 1 ≤ edge.prefixBytes.length by rw [split]; simp)
  rw [one] at walked
  have size : edge.prefixBytes.length = tail.length + 1 := by rw [split]; rfl
  rw [split, List.cons_append]
  simp only [lookup, settles, branch, searched, Option.bind_eq_bind, Option.bind_some]
  rw [walked, size, List.length_cons]
  congr 1
  omega

/-- The label of a node leads to it. -/
theorem walk (built : t.Built label) {k : Nat} (used : k < t.nodesLen) (rest : Bytes) (parsed : Nat) :
    t.lookup (label k ++ rest) (.node 0) parsed = t.lookup rest (.node k) (parsed + (label k).length) := by
  obtain ⟨size, same⟩ : ∃ size, size = (label k).length := ⟨_, rfl⟩
  induction size using Nat.strong_induction_on generalizing k rest with
  | _ size ih =>
    by_cases root : k = 0
    · rw [root, built.labelled.2.1]
      rfl
    · obtain ⟨i, e, edge, below, leads⟩ := built.hangs k (Nat.pos_of_ne_zero root) used
      obtain ⟨nonempty, -, longer⟩ := built.labelled.below below
      have some := List.length_pos_iff.mpr nonempty
      rw [leads] at longer
      have lengths := congrArg List.length longer
      rw [List.length_append] at lengths
      rw [longer, List.append_assoc, ih (label i).length (by omega) (built.used_of_below below.1) _ rfl,
        built.walk_edge below, leads, List.length_append, Nat.add_assoc]

/-- A tree that was built selects among its labels. -/
theorem selects (built : t.Built label) : t.Selects label where
  labelled := built.labelled
  bears := built.bears
  spelled := by
    intro k member
    obtain ⟨value, leaf⟩ := mem_leaves.mp member
    have used : k < t.nodesLen := by
      apply Nat.lt_of_not_le
      intro late
      obtain ⟨inside, -⟩ := List.getElem?_eq_some_iff.mp leaf
      have empty := (built.unused k late inside).1
      rw [leaf] at empty
      cases empty
    have walked := built.walk used [] 0
    rw [List.append_nil, Nat.zero_add] at walked
    rw [walked]
    simp [lookup, settle, leaf]

end Built

/-! ## Where a token leaves the tree -/

/-- From a cursor, no edge goes on with a byte. -/
def Refuses (t : RTree N E B R) (byte : UInt8) : RLookup → Prop
  | .node idx => ∃ start len, t.nodes[idx]? = some (.branch start len) ∧
      findEdge t.edges byte start len = some none
  | .edge e read => 1 ≤ read ∧ ∃ edge expected, t.edges[e]? = some edge ∧
      edge.prefixBytes[read]? = some expected ∧ byte ≠ expected

/-- The cursor of a mismatch stands after the bytes that were read, and refuses the next one. -/
structure Leaves (t : RTree N E B R) (label : Nat → Bytes) (word buf : Bytes) (parsed read : Nat)
    (state next : RLookup) : Prop where
  /-- What was read, and what is refused. -/
  refused : ∃ seen byte tail, buf = seen ++ byte :: tail ∧ read = parsed + seen.length ∧
    t.Stands label next (word ++ seen) ∧ t.Refuses byte next ∧ (seen = [] → t.settle state = some next)

/-- A lookup leaves a labelled tree so. -/
theorem lookup_leaves (labelled : t.Labelled label) {buf : Bytes} {state next : RLookup} {word : Bytes}
    (stands : t.Stands label state word) (entered : ∀ e read, state = .edge e read → 1 ≤ read)
    {parsed read : Nat} (looked : t.lookup buf state parsed = some (.mismatch read, next)) :
    t.Leaves label word buf parsed read state next := by
  induction buf generalizing state word parsed with
  | nil =>
    rcases (lookup_nil_eq looked).2 with ⟨_, _, same, _⟩ | ⟨more, _⟩
    · cases same
    · cases more
  | cons byte rest ih =>
    obtain ⟨settled, moved, stands, unfinished⟩ := stands.settle labelled
    simp only [lookup, moved, Option.bind_eq_bind, Option.bind_some] at looked
    -- A byte that is read belongs to what was seen.
    have goes {middle : RLookup} (stands : t.Stands label middle (word ++ [byte]))
        (entered : ∀ e read, middle = .edge e read → 1 ≤ read)
        (later : t.lookup rest middle (parsed + 1) = some (.mismatch read, next)) :
        t.Leaves label word (byte :: rest) parsed read state next := by
      obtain ⟨seen, other, tail, split, total, there, refuses, -⟩ := (ih stands entered later).refused
      refine ⟨byte :: seen, other, tail, by rw [split]; rfl, ?_, ?_, refuses, by rintro ⟨⟩⟩
      · rw [List.length_cons]
        omega
      · rwa [List.append_assoc] at there
    cases settled with
    | node idx =>
      simp only [Option.bind_eq_some_iff] at looked
      obtain ⟨found, branch, looked⟩ := looked
      cases found with
      | leaf value => cases looked
      | branch start len =>
        simp only [Option.bind_eq_some_iff] at looked
        obtain ⟨choice, searched, looked⟩ := looked
        cases choice with
        | none =>
          cases looked
          exact ⟨[], byte, rest, rfl, rfl, by rwa [List.append_nil], ⟨start, len, branch, searched⟩,
            fun _ => moved⟩
        | some e =>
          obtain ⟨inside, -⟩ := List.getElem?_eq_some_iff.mp branch
          obtain ⟨choice, searched', chosen⟩ := findEdge_sound labelled inside byte start len
            (fun e range => mem_edgesOf.mpr ⟨start, len, branch, List.mem_range'_1.mp range⟩)
          rw [searched] at searched'
          cases searched'
          obtain ⟨below, edge, found, head⟩ := chosen e rfl
          have one : edge.prefixBytes.take 1 = [byte] := by
            rw [List.take_one, List.head?_eq_getElem?, head]
            rfl
          have some : 1 ≤ edge.prefixBytes.length := (List.getElem?_eq_some_iff.mp head).1
          have there : t.Stands label (.edge e 1) _ := .edge inside below found some
          rw [one] at there
          cases stands
          exact goes there (fun _ _ same => by cases same; exact Nat.le_refl _) looked
    | edge e before =>
      obtain ⟨edge, found, short⟩ := unfinished e before rfl
      have expected : edge.prefixBytes[before]? = some edge.prefixBytes[before] := List.getElem?_eq_getElem short
      have positive : 1 ≤ before := by
        cases state with
        | node idx => cases moved
        | edge e' before' =>
          have old := entered e' before' rfl
          simp only [settle, Option.bind_eq_bind, Option.bind_eq_some_iff] at moved
          obtain ⟨edge', -, moved⟩ := moved
          split at moved
          · cases moved
            exact old
          · split at moved <;> cases moved
      simp only [found, expected, Option.bind_some] at looked
      split at looked
      · rename_i same
        cases stands with
        | @edge idx _ _ edge' inside below found' within =>
          rw [found] at found'
          cases found'
          have there : t.Stands label (.edge e (before + 1)) _ := .edge inside below found short
          rw [List.take_add_one, expected, ← same, ← List.append_assoc] at there
          exact goes there (fun _ _ same => by cases same; omega) looked
      · rename_i differs
        cases looked
        exact ⟨[], byte, rest, rfl, rfl, by rwa [List.append_nil], ⟨positive, edge, _, found, expected, differs⟩,
          fun _ => moved⟩

/-- A branch that finds no edge has none that starts with the byte. -/
theorem findEdge_none {edges : List REdge} {byte : UInt8} {start len : Nat}
    (searched : findEdge edges byte start len = some none) {e : Nat} {edge : REdge}
    (range : start ≤ e ∧ e < start + len) (found : edges[e]? = some edge) :
    edge.prefixBytes.head? ≠ some byte := by
  induction len generalizing start with
  | zero => omega
  | succ len ih =>
    simp only [findEdge, Option.bind_eq_bind, Option.bind_eq_some_iff] at searched
    obtain ⟨first, found', head, starts, searched⟩ := searched
    split at searched
    · cases searched
    · rename_i differs
      by_cases here : start = e
      · rw [here, found] at found'
        cases found'
        rw [List.head?_eq_getElem?, starts]
        exact fun same => differs (Option.some.inj same).symm
      · exact ih searched ⟨by omega, by omega⟩

/-! ## What an insertion writes -/

/-- A leaf on a further edge of a branch. -/
def hungOn (t : RTree N E B R) (value : R) (idx start len : Nat) (ending : Bytes) : RTree N E B R where
  nodes := (t.nodes.set t.nodesLen (.leaf value)).set idx (.branch start (len + 1))
  nodesLen := t.nodesLen + 1
  edges := t.edges.set (start + len) ⟨ending, t.nodesLen⟩
  edgesLen := t.edgesLen

/-- A leaf on a new branch in the middle of an edge. -/
def splitOn (t : RTree N E B R) (value : R) (e read : Nat) (edge : REdge) (ending : Bytes) : RTree N E B R where
  nodes := ((t.nodes.set t.nodesLen (.branch t.edgesLen 1)).set (t.nodesLen + 1) (.leaf value)).set t.nodesLen
    (.branch t.edgesLen 2)
  nodesLen := t.nodesLen + 2
  edges := ((t.edges.set t.edgesLen ⟨edge.prefixBytes.drop read, edge.nodeIdx⟩).set (t.edgesLen + 1)
    ⟨ending, t.nodesLen + 1⟩).set e ⟨edge.prefixBytes.take read, t.nodesLen⟩
  edgesLen := t.edgesLen + B

/-- An entry that was overwritten. -/
theorem store_some {α : Type} {array stored : List α} {idx : Nat} {value : α}
    (written : store array idx value = some stored) : idx < array.length ∧ stored = array.set idx value := by
  unfold store at written
  split at written
  · rename_i inside
    exact ⟨inside, (Option.some.inj written).symm⟩
  · cases written

/-- A token that leaves the tree at a branch is hung on it. -/
theorem insert_node {t' : RTree N E B R} {token : Bytes} {value : R} {read idx start len : Nat}
    (used : 0 < t.nodesLen) (early : idx < t.nodesLen)
    (looked : t.lookup token (.node 0) 0 = some (.mismatch read, .node idx))
    (branch : t.nodes[idx]? = some (.branch start len)) (inserted : t.insert token value = some t') :
    t' = t.hungOn value idx start len (token.drop read) ∧ t.nodesLen < t.nodes.length ∧
      start + len < t.edges.length ∧ len ≠ B := by
  have nonzero : t.nodesLen ≠ 0 := Nat.ne_of_gt used
  simp only [insert, if_neg nonzero, looked, Option.bind_eq_bind, Option.bind_some, Option.bind_eq_some_iff]
    at inserted
  obtain ⟨⟨fresh, mid⟩, added, hung⟩ := inserted
  simp only [addNode, Option.bind_eq_bind, Option.bind_eq_some_iff] at added
  obtain ⟨nodes, written, same⟩ := added
  obtain ⟨inside, rfl⟩ := store_some written
  cases same
  have kept : (t.nodes.set t.nodesLen (.leaf value))[idx]? = some (.branch start len) := by
    rw [List.getElem?_set_ne (by omega), branch]
  simp only [addEdge, kept, Option.bind_eq_bind] at hung
  split at hung
  · cases hung
  · rename_i more
    simp only [Option.bind_eq_some_iff] at hung
    obtain ⟨edges, wroteEdge, nodes, wroteNode, same⟩ := hung
    obtain ⟨room, rfl⟩ := store_some wroteEdge
    obtain ⟨-, rfl⟩ := store_some wroteNode
    cases same
    exact ⟨rfl, inside, room, more⟩

/-- A token that leaves the tree inside an edge is hung on a branch there. -/
theorem insert_edge {t' : RTree N E B R} {token : Bytes} {value : R} {read e before : Nat} {edge : REdge}
    (used : 0 < t.nodesLen)
    (looked : t.lookup token (.node 0) 0 = some (.mismatch read, .edge e before))
    (found : t.edges[e]? = some edge) (inserted : t.insert token value = some t') :
    t' = t.splitOn value e before edge (token.drop read) ∧ t.nodesLen + 1 < t.nodes.length ∧
      t.edgesLen + 1 < t.edges.length ∧ 1 ≠ B := by
  have nonzero : t.nodesLen ≠ 0 := Nat.ne_of_gt used
  simp only [insert, if_neg nonzero, looked, found, Option.bind_eq_bind, Option.bind_some,
    Option.bind_eq_some_iff] at inserted
  obtain ⟨⟨⟨leftIdx, one⟩, first⟩, listed, ⟨branchIdx, second⟩, branched, ⟨leafIdx, third⟩, leafed, fourth, hung,
    updated⟩ := inserted
  simp only [addEdgeList, Option.bind_eq_bind, Option.bind_eq_some_iff] at listed
  obtain ⟨edges, wroteLeft, same⟩ := listed
  obtain ⟨roomLeft, rfl⟩ := store_some wroteLeft
  cases same
  simp only [addNode, Option.bind_eq_bind, Option.bind_eq_some_iff] at branched
  obtain ⟨nodes, wroteBranch, same⟩ := branched
  obtain ⟨roomBranch, rfl⟩ := store_some wroteBranch
  cases same
  simp only [addNode, Option.bind_eq_bind, Option.bind_eq_some_iff] at leafed
  obtain ⟨nodes, wroteLeaf, same⟩ := leafed
  obtain ⟨roomLeaf, rfl⟩ := store_some wroteLeaf
  cases same
  have there : ((t.nodes.set t.nodesLen (.branch t.edgesLen 1)).set (t.nodesLen + 1) (.leaf value))[t.nodesLen]? =
      some (.branch t.edgesLen 1) := by
    rw [List.getElem?_set_ne (by omega), List.getElem?_set_self roomBranch]
  simp only [addEdge, there, Option.bind_eq_bind] at hung
  split at hung
  · cases hung
  · rename_i more
    simp only [Option.bind_eq_some_iff] at hung
    obtain ⟨edges, wroteRight, nodes, wroteNode, same⟩ := hung
    obtain ⟨roomRight, rfl⟩ := store_some wroteRight
    obtain ⟨-, rfl⟩ := store_some wroteNode
    cases same
    simp only [updateEdge, Option.bind_eq_bind, Option.bind_eq_some_iff] at updated
    obtain ⟨edges, wroteEdge, same⟩ := updated
    obtain ⟨-, rfl⟩ := store_some wroteEdge
    cases same
    simp only [List.length_set] at roomLeaf roomRight
    exact ⟨rfl, roomLeaf, roomRight, more⟩

/-- The tokens and values in the leaves of a tree. -/
def Holds (t : RTree N E B R) (label : Nat → Bytes) (tokens : List (Bytes × R)) : Prop :=
  ∀ token value, (token, value) ∈ tokens ↔ ∃ k, t.nodes[k]? = some (.leaf value) ∧ label k = token

/-- A leaf is a node in use. -/
theorem Built.used_of_leaf (built : t.Built label) {k : Nat} {value : R}
    (leaf : t.nodes[k]? = some (.leaf value)) : k < t.nodesLen := by
  apply Nat.lt_of_not_le
  intro late
  obtain ⟨inside, -⟩ := List.getElem?_eq_some_iff.mp leaf
  have empty := (built.unused k late inside).1
  rw [leaf] at empty
  cases empty

/-- A node in use keeps its label when one that was not in use is labelled. -/
theorem update_used {k fresh : Nat} (early : k < fresh) (word : Bytes) :
    Function.update label fresh word k = label k := Function.update_of_ne (Nat.ne_of_lt early) _ _

/-- A node that keeps its label lies above a leaf while the leaves stay. -/
theorem Built.bears_kept (built : t.Built label) {t' : RTree N E B R} {label' : Nat → Bytes}
    (stays : ∀ (k : Nat) (value : R), t.nodes[k]? = some (.leaf value) → t'.nodes[k]? = some (.leaf value))
    (same : ∀ k, k < t.nodesLen → label' k = label k) {i : Nat} (inside : i < t.nodes.length)
    (kept : label' i = label i) :
    i ∈ t'.leaves ∨ ∃ k ∈ t'.leaves, label' i <+: label' k ∧ label' i ≠ label' k := by
  rcases built.bears i (List.mem_range.mpr inside) with leaf | ⟨k, leaf, shorter, proper⟩
  · obtain ⟨value, found⟩ := mem_leaves.mp leaf
    exact .inl (mem_leaves.mpr ⟨value, stays i value found⟩)
  · obtain ⟨value, found⟩ := mem_leaves.mp leaf
    have label_k := same k (built.used_of_leaf found)
    right
    use k, mem_leaves.mpr ⟨value, stays k value found⟩
    rw [kept, label_k]
    exact ⟨shorter, proper⟩

/-- A tree with one more leaf holds one more token. -/
theorem Built.holds_more (built : t.Built label) {tokens : List (Bytes × R)} (holds : t.Holds label tokens)
    {t' : RTree N E B R} {label' : Nat → Bytes} {fresh : Nat} {token : Bytes} {value : R}
    (leaves : ∀ (k : Nat) (other : R), t'.nodes[k]? = some (.leaf other) ↔
      t.nodes[k]? = some (.leaf other) ∨ (k = fresh ∧ other = value))
    (same : ∀ k, k < t.nodesLen → label' k = label k) (named : label' fresh = token) :
    t'.Holds label' (tokens ++ [(token, value)]) := by
  intro token' value'
  rw [List.mem_append, List.mem_singleton, holds]
  constructor
  · rintro (⟨k, leaf, spelled⟩ | pair)
    · use k, (leaves k value').mpr (.inl leaf)
      rw [same k (built.used_of_leaf leaf), spelled]
    · cases pair
      exact ⟨fresh, (leaves fresh value).mpr (.inr ⟨rfl, rfl⟩), named⟩
  · rintro ⟨k, leaf, spelled⟩
    rcases (leaves k value').mp leaf with before | ⟨here, rfl⟩
    · left
      use k, before
      rw [← same k (built.used_of_leaf before), spelled]
    · right
      rw [← spelled, here, named]

/-! ## A leaf on a branch -/

section Hung

variable {value : R} {idx start len : Nat} {ending : Bytes}

/-- The nodes afterwards. -/
theorem hungOn_nodes (inside : t.nodesLen < t.nodes.length) (early : idx < t.nodesLen) (k : Nat) :
    (t.hungOn value idx start len ending).nodes[k]? =
      if k = idx then some (.branch start (len + 1))
      else if k = t.nodesLen then some (.leaf value) else t.nodes[k]? := by
  show ((t.nodes.set t.nodesLen (.leaf value)).set idx (.branch start (len + 1)))[k]? = _
  by_cases here : k = idx
  · rw [if_pos here, here, List.getElem?_set_self (by rw [List.length_set]; omega)]
  · rw [if_neg here, List.getElem?_set_ne (Ne.symm here)]
    by_cases fresh : k = t.nodesLen
    · rw [if_pos fresh, fresh, List.getElem?_set_self inside]
    · rw [if_neg fresh, List.getElem?_set_ne (Ne.symm fresh)]

namespace Built

/-- The next place in the block of a branch is nobody's edge. -/
theorem free (built : t.Built label) (early : idx < t.nodesLen) (branch : t.nodes[idx]? = some (.branch start len))
    (more : len ≠ B) (j : Nat) : start + len ∉ t.edgesOf j := by
  intro member
  obtain ⟨start', len', branch', range⟩ := mem_edgesOf.mp member
  have used := built.used_of_below member
  have block := built.block idx start len early branch
  have block' := built.block j start' len' used branch'
  by_cases same : idx = j
  · rw [← same, branch] at branch'
    cases branch'
    omega
  · have gap := built.apart idx j start len start' len' early used same branch branch'
    omega

/-- The edges of a branch afterwards. -/
theorem hungOn_edges (built : t.Built label) (inside : t.nodesLen < t.nodes.length) (early : idx < t.nodesLen)
    (branch : t.nodes[idx]? = some (.branch start len)) {j e : Nat} :
    e ∈ (t.hungOn value idx start len ending).edgesOf j ↔ e ∈ t.edgesOf j ∨ (j = idx ∧ e = start + len) := by
  rw [mem_edgesOf, mem_edgesOf, hungOn_nodes inside early]
  by_cases here : j = idx
  · rw [if_pos here, here, branch]
    constructor
    · rintro ⟨start', len', same, low, high⟩
      cases same
      by_cases last : e = start + len
      · exact .inr ⟨rfl, last⟩
      · exact .inl ⟨start, len, rfl, low, by omega⟩
    · rintro (⟨start', len', same, low, high⟩ | ⟨-, last⟩)
      · cases same
        exact ⟨start, len + 1, rfl, low, by omega⟩
      · exact ⟨start, len + 1, rfl, by omega, by omega⟩
  · rw [if_neg here]
    by_cases fresh : j = t.nodesLen
    · rw [if_pos fresh, fresh, (built.unused _ (Nat.le_refl _) inside).1]
      constructor
      · rintro ⟨start', len', same, -⟩
        cases same
      · rintro (⟨start', len', same, low, high⟩ | ⟨same, -⟩)
        · cases same
          omega
        · omega
    · rw [if_neg fresh]
      exact ⟨.inl, Or.rec id fun new => absurd new.1 here⟩

/-- The edges below a node afterwards: those before, and the new one. -/
theorem hungOn_below (built : t.Built label) (inside : t.nodesLen < t.nodes.length) (early : idx < t.nodesLen)
    (branch : t.nodes[idx]? = some (.branch start len)) (room : start + len < t.edges.length) (more : len ≠ B)
    {j e : Nat} {edge : REdge} :
    (t.hungOn value idx start len ending).Below j e edge ↔
      t.Below j e edge ∨ (j = idx ∧ e = start + len ∧ edge = ⟨ending, t.nodesLen⟩) := by
  have free := built.free early branch more
  have members := @hungOn_edges N E B R t label value idx start len ending built inside early branch j e
  have old (other : e ≠ start + len) : (t.hungOn value idx start len ending).edges[e]? = t.edges[e]? :=
    List.getElem?_set_ne (Ne.symm other)
  have new : (t.hungOn value idx start len ending).edges[start + len]? = some ⟨ending, t.nodesLen⟩ :=
    List.getElem?_set_self room
  constructor
  · rintro ⟨member, found⟩
    rcases members.mp member with before | ⟨here, last⟩
    · have other : e ≠ start + len := fun same => free j (same ▸ before)
      exact .inl ⟨before, (old other).symm.trans found⟩
    · rw [last, new] at found
      exact .inr ⟨here, last, (Option.some.inj found).symm⟩
  · rintro (⟨before, found⟩ | ⟨here, last, rfl⟩)
    · have other : e ≠ start + len := fun same => free j (same ▸ before)
      exact ⟨members.mpr (.inl before), (old other).trans found⟩
    · exact ⟨members.mpr (.inr ⟨here, last⟩), last ▸ new⟩

/-- The branches afterwards have the blocks they had. -/
theorem hungOn_branch (inside : t.nodesLen < t.nodes.length) (early : idx < t.nodesLen)
    (branch : t.nodes[idx]? = some (.branch start len)) {k start' len' : Nat}
    (found : (t.hungOn value idx start len ending).nodes[k]? = some (.branch start' len')) :
    k ≠ t.nodesLen ∧ ∃ before, t.nodes[k]? = some (.branch start' before) ∧
      (len' = before ∨ (before = len ∧ len' = len + 1)) := by
  rw [hungOn_nodes inside early] at found
  split at found
  · rename_i here
    cases found
    rw [here]
    exact ⟨Nat.ne_of_lt early, len, branch, .inr ⟨rfl, rfl⟩⟩
  · split at found
    · cases found
    · rename_i fresh
      exact ⟨fresh, len', found, .inl rfl⟩

/-- The leaves afterwards: those before, and the new one. -/
theorem hungOn_leaf (built : t.Built label) (inside : t.nodesLen < t.nodes.length) (early : idx < t.nodesLen)
    (branch : t.nodes[idx]? = some (.branch start len)) {k : Nat} {other : R} :
    (t.hungOn value idx start len ending).nodes[k]? = some (.leaf other) ↔
      t.nodes[k]? = some (.leaf other) ∨ (k = t.nodesLen ∧ other = value) := by
  rw [hungOn_nodes inside early]
  by_cases here : k = idx
  · rw [if_pos here, here, branch]
    constructor
    · intro same
      cases same
    · rintro (same | ⟨same, -⟩)
      · cases same
      · omega
  · rw [if_neg here]
    by_cases fresh : k = t.nodesLen
    · rw [if_pos fresh, fresh, (built.unused _ (Nat.le_refl _) inside).1]
      constructor
      · intro same
        cases same
        exact .inr ⟨rfl, rfl⟩
      · rintro (same | ⟨-, same⟩)
        · cases same
        · rw [same]
    · rw [if_neg fresh]
      exact ⟨.inl, Or.rec id fun new => absurd new.1 fresh⟩

/-- Hanging a leaf on a branch that has no such edge builds a tree. -/
theorem hungOn (built : t.Built label) (inside : t.nodesLen < t.nodes.length) (early : idx < t.nodesLen)
    (branch : t.nodes[idx]? = some (.branch start len)) (room : start + len < t.edges.length) (more : len ≠ B)
    (nonempty : ending ≠ [])
    (refused : ∀ e edge, t.Below idx e edge → edge.prefixBytes.head? ≠ ending.head?) :
    (t.hungOn value idx start len ending).Built
      (Function.update label t.nodesLen (label idx ++ ending)) := by
  have below {j e : Nat} {edge : REdge} :=
    @hungOn_below N E B R t label value idx start len ending built inside early branch room more j e edge
  have nodes : (t.hungOn value idx start len ending).nodes.length = t.nodes.length := by
    simp [RTree.hungOn]
  have edges : (t.hungOn value idx start len ending).edges.length = t.edges.length := by
    simp [RTree.hungOn]
  have old {k : Nat} (used : k < t.nodesLen) := @update_used label k t.nodesLen used (label idx ++ ending)
  have leaf {k : Nat} {other : R} :=
    @hungOn_leaf N E B R t label value idx start len ending built inside early branch k other
  constructor
  case labelled =>
    apply labelled_of_below
    · rw [nodes]
      exact built.labelled.1
    · rw [old built.used, built.labelled.2.1]
    · intro j e member
      have bound : e < (t.hungOn value idx start len ending).edges.length := by
        rw [edges]
        rcases (hungOn_edges built inside early branch).mp member with before | ⟨-, last⟩
        · exact built.stored before
        · omega
      exact ⟨_, List.getElem?_eq_getElem bound⟩
    · intro j e edge there
      rw [nodes]
      rcases below.mp there with before | ⟨here, -, new⟩
      · rw [old (built.used_of_below before.1), old (built.target before).2]
        exact built.labelled.below before
      · rw [here, new, old early]
        exact ⟨nonempty, inside, Function.update_self _ _ _⟩
  case bears =>
    intro j within
    rw [List.mem_range, nodes] at within
    by_cases fresh : j = t.nodesLen
    · left
      rw [fresh]
      exact mem_leaves.mpr ⟨value, leaf.mpr (.inr ⟨rfl, rfl⟩)⟩
    · exact built.bears_kept (fun _ _ before => leaf.mpr (.inl before)) (fun _ => old) within
        (Function.update_of_ne fresh _ _)
  case used => exact Nat.succ_pos _
  case unused =>
    intro k late within
    have late : t.nodesLen + 1 ≤ k := late
    rw [nodes] at within
    rw [hungOn_nodes inside early, if_neg (by omega), if_neg (by omega), Function.update_of_ne (by omega)]
    exact built.unused k (by omega) within
  case block =>
    intro k start' len' within found
    have within : k < t.nodesLen + 1 := within
    obtain ⟨fresh, before, was, change⟩ := hungOn_branch inside early branch found
    obtain ⟨few, blocked⟩ := built.block k start' before (by omega) was
    exact ⟨by omega, blocked⟩
  case apart =>
    intro i j start₁ len₁ start₂ len₂ withinI withinJ differ foundI foundJ
    have withinI : i < t.nodesLen + 1 := withinI
    have withinJ : j < t.nodesLen + 1 := withinJ
    obtain ⟨freshI, beforeI, wasI, -⟩ := hungOn_branch inside early branch foundI
    obtain ⟨freshJ, beforeJ, wasJ, -⟩ := hungOn_branch inside early branch foundJ
    exact built.apart i j start₁ beforeI start₂ beforeJ (by omega) (by omega) differ wasI wasJ
  case distinct =>
    intro j e e' edge edge' there there' head
    rcases below.mp there with before | ⟨here, last, new⟩
    · rcases below.mp there' with before' | ⟨here', -, new'⟩
      · exact built.distinct j e e' edge edge' before before' head
      · rw [here'] at before
        rw [new'] at head
        exact absurd head (refused e edge before)
    · rcases below.mp there' with before' | ⟨-, last', -⟩
      · rw [here] at before'
        rw [new] at head
        exact absurd head.symm (refused e' edge' before')
      · rw [last, last']
  case hangs =>
    intro k positive within
    have within : k < t.nodesLen + 1 := within
    by_cases fresh : k = t.nodesLen
    · use idx, start + len, ⟨ending, t.nodesLen⟩
      exact ⟨below.mpr (.inr ⟨rfl, rfl, rfl⟩), fresh.symm⟩
    · obtain ⟨j, e, edge, there, leads⟩ := built.hangs k positive (by omega)
      exact ⟨j, e, edge, below.mpr (.inl there), leads⟩

end Built

end Hung

/-! ## A leaf inside an edge -/

section Split

variable {value : R} {p e₀ read : Nat} {cut : REdge} {ending : Bytes}

/-- The nodes afterwards. -/
theorem splitOn_nodes (inside : t.nodesLen + 1 < t.nodes.length) (k : Nat) :
    (t.splitOn value e₀ read cut ending).nodes[k]? =
      if k = t.nodesLen then some (.branch t.edgesLen 2)
      else if k = t.nodesLen + 1 then some (.leaf value) else t.nodes[k]? := by
  show (((t.nodes.set t.nodesLen (.branch t.edgesLen 1)).set (t.nodesLen + 1) (.leaf value)).set t.nodesLen
    (.branch t.edgesLen 2))[k]? = _
  by_cases here : k = t.nodesLen
  · rw [if_pos here, here, List.getElem?_set_self (by rw [List.length_set, List.length_set]; omega)]
  · rw [if_neg here, List.getElem?_set_ne (Ne.symm here)]
    by_cases next : k = t.nodesLen + 1
    · rw [if_pos next, next, List.getElem?_set_self (by rw [List.length_set]; omega)]
    · rw [if_neg next, List.getElem?_set_ne (Ne.symm next), List.getElem?_set_ne (Ne.symm here)]

/-- The branches afterwards: those before, and the new one. -/
theorem splitOn_branch (inside : t.nodesLen + 1 < t.nodes.length) {k start len : Nat}
    (found : (t.splitOn value e₀ read cut ending).nodes[k]? = some (.branch start len)) :
    (k = t.nodesLen ∧ start = t.edgesLen ∧ len = 2) ∨
      (k ≠ t.nodesLen ∧ k ≠ t.nodesLen + 1 ∧ t.nodes[k]? = some (.branch start len)) := by
  rw [splitOn_nodes inside] at found
  split at found
  · rename_i here
    cases found
    exact .inl ⟨here, rfl, rfl⟩
  · rename_i here
    split at found
    · cases found
    · rename_i next
      exact .inr ⟨here, next, found⟩

/-- An edge of the tree afterwards. -/
inductive SplitBelow (t : RTree N E B R) (p e₀ read : Nat) (cut : REdge) (ending : Bytes) :
    Nat → Nat → REdge → Prop where
  /-- One that was not cut. -/
  | old {j e : Nat} {edge : REdge} (below : t.Below j e edge) (other : e ≠ e₀) :
      SplitBelow t p e₀ read cut ending j e edge
  /-- What is above the cut. -/
  | upper : SplitBelow t p e₀ read cut ending p e₀ ⟨cut.prefixBytes.take read, t.nodesLen⟩
  /-- What is below the cut. -/
  | lower : SplitBelow t p e₀ read cut ending t.nodesLen t.edgesLen ⟨cut.prefixBytes.drop read, cut.nodeIdx⟩
  /-- The rest of the token. -/
  | added : SplitBelow t p e₀ read cut ending t.nodesLen (t.edgesLen + 1) ⟨ending, t.nodesLen + 1⟩

namespace Built

/-- The leaves afterwards: those before, and the new one. -/
theorem splitOn_leaf (built : t.Built label) (inside : t.nodesLen + 1 < t.nodes.length) {k : Nat} {other : R} :
    (t.splitOn value e₀ read cut ending).nodes[k]? = some (.leaf other) ↔
      t.nodes[k]? = some (.leaf other) ∨ (k = t.nodesLen + 1 ∧ other = value) := by
  rw [splitOn_nodes inside]
  by_cases here : k = t.nodesLen
  · rw [if_pos here, here, (built.unused _ (Nat.le_refl _) (by omega)).1]
    constructor
    · intro same
      cases same
    · rintro (same | ⟨same, -⟩)
      · cases same
      · omega
  · rw [if_neg here]
    by_cases next : k = t.nodesLen + 1
    · rw [if_pos next, next, (built.unused _ (Nat.le_succ _) inside).1]
      constructor
      · intro same
        cases same
        exact .inr ⟨rfl, rfl⟩
      · rintro (same | ⟨-, same⟩)
        · cases same
        · rw [same]
    · rw [if_neg next]
      exact ⟨.inl, Or.rec id fun new => absurd new.1 next⟩

/-- The edges of a branch afterwards. -/
theorem splitOn_edges (built : t.Built label) (inside : t.nodesLen + 1 < t.nodes.length) {j e : Nat} :
    e ∈ (t.splitOn value e₀ read cut ending).edgesOf j ↔
      e ∈ t.edgesOf j ∨ (j = t.nodesLen ∧ (e = t.edgesLen ∨ e = t.edgesLen + 1)) := by
  rw [mem_edgesOf, mem_edgesOf]
  constructor
  · rintro ⟨start, len, found, low, high⟩
    rcases splitOn_branch inside found with ⟨here, rfl, rfl⟩ | ⟨-, -, before⟩
    · exact .inr ⟨here, by omega⟩
    · exact .inl ⟨start, len, before, low, high⟩
  · rintro (⟨start, len, found, low, high⟩ | ⟨here, place⟩)
    · have used : j < t.nodesLen := built.used_of_below (mem_edgesOf.mpr ⟨start, len, found, low, high⟩)
      use start, len
      rw [splitOn_nodes inside, if_neg (by omega), if_neg (by omega)]
      exact ⟨found, low, high⟩
    · use t.edgesLen, 2
      rw [splitOn_nodes inside, if_pos here]
      exact ⟨rfl, by omega, by omega⟩

/-- The edges below a node afterwards. -/
theorem splitOn_below (built : t.Built label) (inside : t.nodesLen + 1 < t.nodes.length)
    (cutBelow : t.Below p e₀ cut) (room : t.edgesLen + 1 < t.edges.length) {j e : Nat} {edge : REdge} :
    (t.splitOn value e₀ read cut ending).Below j e edge ↔ SplitBelow t p e₀ read cut ending j e edge := by
  have early : e₀ < t.edgesLen := built.handed cutBelow.1
  have cutEdge : (t.splitOn value e₀ read cut ending).edges[e₀]? =
      some ⟨cut.prefixBytes.take read, t.nodesLen⟩ :=
    List.getElem?_set_self (by rw [List.length_set, List.length_set]; omega)
  have lowerEdge : (t.splitOn value e₀ read cut ending).edges[t.edgesLen]? =
      some ⟨cut.prefixBytes.drop read, cut.nodeIdx⟩ := by
    show (((t.edges.set t.edgesLen _).set (t.edgesLen + 1) _).set e₀ _)[t.edgesLen]? = _
    rw [List.getElem?_set_ne (by omega), List.getElem?_set_ne (by omega), List.getElem?_set_self (by omega)]
  have addedEdge : (t.splitOn value e₀ read cut ending).edges[t.edgesLen + 1]? =
      some ⟨ending, t.nodesLen + 1⟩ := by
    show (((t.edges.set t.edgesLen _).set (t.edgesLen + 1) _).set e₀ _)[t.edgesLen + 1]? = _
    rw [List.getElem?_set_ne (by omega), List.getElem?_set_self (by rw [List.length_set]; omega)]
  have oldEdge (handed : e < t.edgesLen) (other : e ≠ e₀) :
      (t.splitOn value e₀ read cut ending).edges[e]? = t.edges[e]? := by
    show (((t.edges.set t.edgesLen _).set (t.edgesLen + 1) _).set e₀ _)[e]? = _
    rw [List.getElem?_set_ne (Ne.symm other), List.getElem?_set_ne (by omega), List.getElem?_set_ne (by omega)]
  constructor
  · rintro ⟨member, found⟩
    rcases (splitOn_edges built inside).mp member with before | ⟨rfl, rfl | rfl⟩
    · by_cases here : e = e₀
      · rw [here, cutEdge] at found
        rw [here] at before ⊢
        cases found
        rw [built.owner before cutBelow.1]
        exact .upper
      · rw [oldEdge (built.handed before) here] at found
        exact .old ⟨before, found⟩ here
    · rw [lowerEdge] at found
      cases found
      exact .lower
    · rw [addedEdge] at found
      cases found
      exact .added
  · intro shape
    cases shape with
    | old below other =>
      exact ⟨(splitOn_edges built inside).mpr (.inl below.1),
        (oldEdge (built.handed below.1) other).trans below.2⟩
    | upper => exact ⟨(splitOn_edges built inside).mpr (.inl cutBelow.1), cutEdge⟩
    | lower => exact ⟨(splitOn_edges built inside).mpr (.inr ⟨rfl, .inl rfl⟩), lowerEdge⟩
    | added => exact ⟨(splitOn_edges built inside).mpr (.inr ⟨rfl, .inr rfl⟩), addedEdge⟩

/-- What an edge of the tree afterwards is. -/
theorem splitOn_adds (built : t.Built label) (inside : t.nodesLen + 1 < t.nodes.length)
    (cutBelow : t.Below p e₀ cut) (positive : 1 ≤ read) (short : read < cut.prefixBytes.length)
    (nonempty : ending ≠ []) {label' : Nat → Bytes} (same : ∀ k, k < t.nodesLen → label' k = label k)
    (middle : label' t.nodesLen = label p ++ cut.prefixBytes.take read)
    (last : label' (t.nodesLen + 1) = label p ++ cut.prefixBytes.take read ++ ending)
    {j e : Nat} {edge : REdge} (shape : SplitBelow t p e₀ read cut ending j e edge) :
    edge.prefixBytes ≠ [] ∧ edge.nodeIdx < t.nodes.length ∧ label' edge.nodeIdx = label' j ++ edge.prefixBytes := by
  cases shape with
  | old below other =>
    rw [same j (built.used_of_below below.1), same edge.nodeIdx (built.target below).2]
    exact built.labelled.below below
  | upper =>
    rw [same p (built.used_of_below cutBelow.1), middle]
    refine ⟨?_, by show t.nodesLen < t.nodes.length; omega, rfl⟩
    apply List.ne_nil_of_length_pos
    rw [List.length_take]
    omega
  | lower =>
    obtain ⟨-, target, longer⟩ := built.labelled.below cutBelow
    refine ⟨?_, target, ?_⟩
    · apply List.ne_nil_of_length_pos
      rw [List.length_drop]
      omega
    · show label' cut.nodeIdx = _
      rw [same cut.nodeIdx (built.target cutBelow).2, longer, middle, List.append_assoc, List.take_append_drop]
  | added => exact ⟨nonempty, inside, by rw [last, middle]⟩

/-- No two edges below a node of the tree afterwards start alike. -/
theorem splitOn_distinct (built : t.Built label) (cutBelow : t.Below p e₀ cut) (positive : 1 ≤ read)
    (refused : cut.prefixBytes[read]? ≠ ending.head?) {j e e' : Nat} {edge edge' : REdge}
    (shape : SplitBelow t p e₀ read cut ending j e edge) (shape' : SplitBelow t p e₀ read cut ending j e' edge')
    (head : edge.prefixBytes.head? = edge'.prefixBytes.head?) : e = e' := by
  have early : p < t.nodesLen := built.used_of_below cutBelow.1
  have start : (cut.prefixBytes.take read).head? = cut.prefixBytes.head? := by
    rw [List.head?_take, if_neg (by omega)]
  have rest : (cut.prefixBytes.drop read).head? = cut.prefixBytes[read]? := List.head?_drop
  cases shape with
  | old below other =>
    have used := built.used_of_below below.1
    cases shape' with
    | old below' other' => exact built.distinct _ _ _ edge edge' below below' head
    | upper =>
      rw [start] at head
      exact built.distinct p _ _ edge cut below cutBelow head
    | lower => omega
    | added => omega
  | upper =>
    cases shape' with
    | old below' other' =>
      rw [start] at head
      exact built.distinct p _ _ cut edge' cutBelow below' head
    | upper => rfl
    | lower => omega
    | added => omega
  | lower =>
    cases shape' with
    | old below' other' => exact absurd (built.used_of_below below'.1) (Nat.lt_irrefl _)
    | upper => omega
    | lower => rfl
    | added => exact absurd (rest.symm.trans head) refused
  | added =>
    cases shape' with
    | old below' other' => exact absurd (built.used_of_below below'.1) (Nat.lt_irrefl _)
    | upper => omega
    | lower => exact absurd (rest.symm.trans head.symm) refused
    | added => rfl

/-- Cutting an edge where a token leaves it builds a tree. -/
theorem splitOn (built : t.Built label) (inside : t.nodesLen + 1 < t.nodes.length)
    (cutBelow : t.Below p e₀ cut) (room : t.edgesLen + 1 < t.edges.length) (forks : 2 ≤ B)
    (positive : 1 ≤ read) (short : read < cut.prefixBytes.length) (nonempty : ending ≠ [])
    (refused : cut.prefixBytes[read]? ≠ ending.head?) {label' : Nat → Bytes}
    (same : ∀ k, k ≠ t.nodesLen → k ≠ t.nodesLen + 1 → label' k = label k)
    (middle : label' t.nodesLen = label p ++ cut.prefixBytes.take read)
    (last : label' (t.nodesLen + 1) = label p ++ cut.prefixBytes.take read ++ ending) :
    (t.splitOn value e₀ read cut ending).Built label' := by
  have below {j e : Nat} {edge : REdge} :=
    @splitOn_below N E B R t label value p e₀ read cut ending built inside cutBelow room j e edge
  have leaf {k : Nat} {other : R} :=
    @splitOn_leaf N E B R t label value e₀ read cut ending built inside k other
  have nodes : (t.splitOn value e₀ read cut ending).nodes.length = t.nodes.length := by
    simp [RTree.splitOn]
  have edges : (t.splitOn value e₀ read cut ending).edges.length = t.edges.length := by
    simp [RTree.splitOn]
  have old (k : Nat) (used : k < t.nodesLen) : label' k = label k := same k (by omega) (by omega)
  constructor
  case labelled =>
    apply labelled_of_below
    · rw [nodes]
      exact built.labelled.1
    · rw [old 0 built.used, built.labelled.2.1]
    · intro j e member
      have bound : e < (t.splitOn value e₀ read cut ending).edges.length := by
        rw [edges]
        rcases (splitOn_edges built inside).mp member with before | ⟨-, rfl | rfl⟩
        · exact built.stored before
        · omega
        · omega
      exact ⟨_, List.getElem?_eq_getElem bound⟩
    · intro j e edge there
      rw [nodes]
      exact splitOn_adds built inside cutBelow positive short nonempty old middle last (below.mp there)
  case bears =>
    intro j within
    rw [List.mem_range, nodes] at within
    have new : t.nodesLen + 1 ∈ (t.splitOn value e₀ read cut ending).leaves :=
      mem_leaves.mpr ⟨value, leaf.mpr (.inr ⟨rfl, rfl⟩)⟩
    by_cases here : j = t.nodesLen
    · right
      use t.nodesLen + 1, new
      rw [here, middle, last]
      refine ⟨List.prefix_append _ _, fun equal => nonempty ?_⟩
      exact List.self_eq_append_right.mp equal
    · by_cases next : j = t.nodesLen + 1
      · rw [next]
        exact .inl new
      · exact built.bears_kept (fun _ _ before => leaf.mpr (.inl before)) old within (same j here next)
  case used => exact Nat.succ_pos _
  case unused =>
    intro k late within
    have late : t.nodesLen + 2 ≤ k := late
    rw [nodes] at within
    rw [splitOn_nodes inside, if_neg (by omega), if_neg (by omega), same k (by omega) (by omega)]
    exact built.unused k (by omega) within
  case block =>
    intro k start len within found
    have within : k < t.nodesLen + 2 := within
    show len ≤ B ∧ start + B ≤ t.edgesLen + B
    rcases splitOn_branch inside found with ⟨-, rfl, rfl⟩ | ⟨here, next, before⟩
    · exact ⟨forks, Nat.le_refl _⟩
    · obtain ⟨few, blocked⟩ := built.block k start len (by omega) before
      exact ⟨few, by omega⟩
  case apart =>
    intro i j start₁ len₁ start₂ len₂ withinI withinJ differ foundI foundJ
    have withinI : i < t.nodesLen + 2 := withinI
    have withinJ : j < t.nodesLen + 2 := withinJ
    rcases splitOn_branch inside foundI with ⟨rfl, rfl, -⟩ | ⟨hereI, nextI, beforeI⟩
    · rcases splitOn_branch inside foundJ with ⟨rfl, -, -⟩ | ⟨hereJ, nextJ, beforeJ⟩
      · exact absurd rfl differ
      · exact .inr (built.block j start₂ len₂ (by omega) beforeJ).2
    · rcases splitOn_branch inside foundJ with ⟨rfl, rfl, -⟩ | ⟨hereJ, nextJ, beforeJ⟩
      · exact .inl (built.block i start₁ len₁ (by omega) beforeI).2
      · exact built.apart i j start₁ len₁ start₂ len₂ (by omega) (by omega) differ beforeI beforeJ
  case distinct =>
    intro j e e' edge edge' there there' head
    exact splitOn_distinct built cutBelow positive refused (below.mp there) (below.mp there') head
  case hangs =>
    intro k positive within
    have within : k < t.nodesLen + 2 := within
    by_cases here : k = t.nodesLen
    · exact ⟨p, e₀, _, below.mpr .upper, here.symm⟩
    · by_cases next : k = t.nodesLen + 1
      · exact ⟨t.nodesLen, _, _, below.mpr .added, next.symm⟩
      · obtain ⟨j, e, edge, there, leads⟩ := built.hangs k positive (by omega)
        by_cases isCut : e = e₀
        · rw [isCut] at there
          have equal : edge = cut := Option.some.inj (there.2.symm.trans cutBelow.2)
          rw [equal] at leads
          exact ⟨t.nodesLen, _, _, below.mpr .lower, leads⟩
        · exact ⟨j, e, edge, below.mpr (.old there isCut), leads⟩

end Built

end Split

/-! ## One insertion -/

section Insert

variable {tokens : List (Bytes × R)} {token : Bytes} {value : R}

/-- A token that ended or was a beginning makes `insert` panic. -/
theorem insert_shared (used : 0 < t.nodesLen) {found : RMatch} {state : RLookup}
    (looked : t.lookup token (.node 0) 0 = some (found, state)) (shared : ∀ read, found ≠ .mismatch read) :
    t.insert token value = none := by
  have nonzero : t.nodesLen ≠ 0 := Nat.ne_of_gt used
  simp only [insert, if_neg nonzero, looked, Option.bind_eq_bind, Option.bind_some]
  cases found with
  | matched read => rfl
  | needsMore => rfl
  | mismatch read => exact absurd rfl (shared read)

/-- Where a token leaves a tree that was built, and what is left of it there. -/
inductive Departs (t : RTree N E B R) (label : Nat → Bytes) (token : Bytes) (read : Nat) : RLookup → Prop where
  /-- At a branch without such an edge. -/
  | branch {idx start len : Nat} (early : idx < t.nodesLen) (found : t.nodes[idx]? = some (.branch start len))
      (spelled : label idx ++ token.drop read = token) (nonempty : token.drop read ≠ [])
      (refused : ∀ e edge, t.Below idx e edge → edge.prefixBytes.head? ≠ (token.drop read).head?) :
      Departs t label token read (.node idx)
  /-- Inside an edge. -/
  | inside {p e before : Nat} {cut : REdge} (below : t.Below p e cut) (positive : 1 ≤ before)
      (short : before < cut.prefixBytes.length)
      (spelled : label p ++ cut.prefixBytes.take before ++ token.drop read = token)
      (nonempty : token.drop read ≠ []) (refused : cut.prefixBytes[before]? ≠ (token.drop read).head?) :
      Departs t label token read (.edge e before)

/-- A mismatch is where the token leaves the tree. -/
theorem Built.departs (built : t.Built label) {read : Nat} {state : RLookup}
    (looked : t.lookup token (.node 0) 0 = some (.mismatch read, state)) : t.Departs label token read state := by
  have entered (e before : Nat) (same : RLookup.node 0 = .edge e before) : 1 ≤ before := by cases same
  obtain ⟨seen, byte, tail, split, total, stands, refuses, atOnce⟩ :=
    (lookup_leaves built.labelled built.selects.start entered looked).refused
  rw [List.nil_append] at stands
  have ending : token.drop read = byte :: tail := by
    rw [split, total, Nat.zero_add, List.drop_left]
  have nonempty : token.drop read ≠ [] := by
    rw [ending]
    exact List.cons_ne_nil _ _
  cases state with
  | node idx =>
    obtain ⟨start, len, branch, searched⟩ := refuses
    have spelled : label idx = seen := by
      cases stands
      rfl
    have early : idx < t.nodesLen := by
      apply Nat.lt_of_not_le
      intro late
      obtain ⟨inside, -⟩ := List.getElem?_eq_some_iff.mp branch
      have empty := (built.unused idx late inside).2
      have root := atOnce (spelled.symm.trans empty)
      cases root
      exact absurd built.used (Nat.not_lt.mpr late)
    apply Departs.branch early branch
    · rw [spelled, ending, split]
    · exact nonempty
    · intro e edge below
      obtain ⟨start', len', branch', range⟩ := mem_edgesOf.mp below.1
      rw [branch] at branch'
      cases branch'
      rw [ending]
      exact findEdge_none searched range below.2
  | edge e before =>
    obtain ⟨positive, cut, expected, found, next, differs⟩ := refuses
    obtain ⟨p, below, spelled⟩ : ∃ p, t.Below p e cut ∧ label p ++ cut.prefixBytes.take before = seen := by
      cases stands with
      | @edge p _ _ cut' inside member found' within =>
        rw [found] at found'
        cases found'
        exact ⟨p, ⟨member, found⟩, rfl⟩
    obtain ⟨short, -⟩ := List.getElem?_eq_some_iff.mp next
    apply Departs.inside below positive short
    · rw [spelled, ending, split]
    · exact nonempty
    · rw [next, ending]
      exact fun same => differs (Option.some.inj same).symm

/-- What an insertion into a tree that was built makes is built, and holds the token too. -/
theorem Built.insert (built : t.Built label) (holds : t.Holds label tokens) (branches : 0 < B)
    {t' : RTree N E B R} (inserted : t.insert token value = some t') :
    ∃ label', t'.Built label' ∧ t'.Holds label' (tokens ++ [(token, value)]) := by
  obtain ⟨⟨found, state⟩, looked, -⟩ := lookup_sound built.labelled token built.selects.start 0
  cases found with
  | matched read =>
    rw [insert_shared built.used looked (by rintro _ ⟨⟩)] at inserted
    cases inserted
  | needsMore =>
    rw [insert_shared built.used looked (by rintro _ ⟨⟩)] at inserted
    cases inserted
  | mismatch read =>
    cases built.departs looked with
    | @branch idx start len early branch spelled nonempty refused =>
      obtain ⟨rfl, inside, room, more⟩ := insert_node built.used early looked branch inserted
      refine ⟨_, built.hungOn inside early branch room more nonempty refused, ?_⟩
      apply built.holds_more holds
      · intro k other
        exact built.hungOn_leaf inside early branch
      · intro k used
        exact update_used used _
      · rw [Function.update_self, spelled]
    | @inside p e before cut below positive short spelled nonempty refused =>
      obtain ⟨rfl, inside, room, more⟩ := insert_edge built.used looked below.2 inserted
      refine ⟨Function.update (Function.update label t.nodesLen (label p ++ cut.prefixBytes.take before))
        (t.nodesLen + 1) token,
        built.splitOn inside below room (by omega) positive short nonempty refused ?_ ?_ ?_, ?_⟩
      · intro k here after
        rw [Function.update_of_ne after, Function.update_of_ne here]
      · rw [Function.update_of_ne (Nat.ne_of_lt (Nat.lt_succ_self _)), Function.update_self]
      · rw [Function.update_self, spelled]
      · apply built.holds_more holds
        · intro k other
          exact built.splitOn_leaf inside
        · intro k used
          rw [Function.update_of_ne (by omega), Function.update_of_ne (by omega)]
        · exact Function.update_self _ _ _

/-- Where there is room, a token that leaves the tree is inserted. -/
theorem Built.insert_room (built : t.Built label) {read : Nat} {state : RLookup}
    (looked : t.lookup token (.node 0) 0 = some (.mismatch read, state)) (nodes : t.nodesLen + 1 < t.nodes.length)
    (edges : t.edgesLen + 1 < t.edges.length) (forks : 2 ≤ B)
    (branches : ∀ k start : Nat, t.nodes[k]? ≠ some (.branch start B)) :
    ∃ t', t.insert token value = some t' := by
  have nonzero : t.nodesLen ≠ 0 := Nat.ne_of_gt built.used
  have wrote {α : Type} {array : List α} {idx : Nat} (inside : idx < array.length) (entry : α) :
      store array idx entry = some (array.set idx entry) := if_pos inside
  cases built.departs looked with
  | @branch idx start len early branch spelled nonempty refused =>
    obtain ⟨few, blocked⟩ := built.block idx start len early branch
    have more : len ≠ B := by
      rintro rfl
      exact branches idx start branch
    have kept : (t.nodes.set t.nodesLen (.leaf value))[idx]? = some (.branch start len) := by
      rw [List.getElem?_set_ne (by omega), branch]
    simp only [RTree.insert, if_neg nonzero, looked, addNode, Option.bind_eq_bind, Option.bind_some]
    rw [wrote (by omega), Option.bind_some]
    simp only [addEdge, kept, Option.bind_some, if_neg more, Option.bind_eq_bind]
    rw [wrote (by omega), Option.bind_some, wrote (by rw [List.length_set]; omega)]
    exact ⟨_, rfl⟩
  | @inside p e before cut below positive short spelled nonempty refused =>
    have there : ((t.nodes.set t.nodesLen (.branch t.edgesLen 1)).set (t.nodesLen + 1) (.leaf value))[t.nodesLen]? =
        some (.branch t.edgesLen 1) := by
      rw [List.getElem?_set_ne (by omega), List.getElem?_set_self (by omega)]
    have one : 1 ≠ B := by omega
    have handed : e < t.edges.length := built.stored below.1
    simp only [RTree.insert, if_neg nonzero, looked, below.2, addEdgeList, addNode, Option.bind_eq_bind, Option.bind_some]
    rw [wrote (by omega)]
    simp only [Option.bind_some]
    rw [wrote (by omega)]
    simp only [Option.bind_some]
    rw [wrote (by rw [List.length_set]; omega)]
    simp only [Option.bind_some, addEdge, there, if_neg one, Option.bind_eq_bind]
    rw [wrote (by rw [List.length_set]; omega)]
    simp only [Option.bind_some]
    rw [wrote (by rw [List.length_set, List.length_set]; omega)]
    simp only [Option.bind_some, updateEdge, Option.bind_eq_bind]
    rw [wrote (by rw [List.length_set, List.length_set]; omega)]
    exact ⟨_, rfl⟩

end Insert

end Built

/-! ## The first insertion -/

section First

variable {token : Bytes} {value : R}

/-- The tree of one token. -/
def single (token : Bytes) (value : R) : RTree N E B R where
  nodes := ((List.replicate N (.branch 0 0)).set 0 (.branch 0 1)).set 1 (.leaf value)
  nodesLen := 2
  edges := (List.replicate E ⟨[], 0⟩).set 0 ⟨token, 1⟩
  edgesLen := B

/-- The first token becomes one edge. -/
theorem insert_new {t : RTree N E B R} (inserted : (new : RTree N E B R).insert token value = some t) :
    t = single token value ∧ 1 < N ∧ 0 < E := by
  simp only [insert, new, if_true, addEdgeList, addNode, Option.bind_eq_bind, Option.bind_eq_some_iff] at inserted
  obtain ⟨⟨⟨edgeIdx, len⟩, first⟩, ⟨edges, wroteEdge, listed⟩, ⟨root, second⟩, ⟨nodes, wroteRoot, rooted⟩,
    ⟨leaf, third⟩, ⟨nodes', wroteLeaf, leafed⟩, same⟩ := inserted
  obtain ⟨roomEdge, rfl⟩ := store_some wroteEdge
  cases listed
  obtain ⟨-, rfl⟩ := store_some wroteRoot
  cases rooted
  obtain ⟨roomLeaf, rfl⟩ := store_some wroteLeaf
  cases leafed
  cases same
  rw [List.length_replicate] at roomEdge
  rw [List.length_set, List.length_replicate] at roomLeaf
  refine ⟨?_, roomLeaf, roomEdge⟩
  simp only [single, Nat.zero_add]

/-- The nodes of a tree of one token. -/
theorem single_nodes (room : 1 < N) (k : Nat) :
    (single token value : RTree N E B R).nodes[k]? =
      if k = 0 then some (.branch 0 1) else if k = 1 then some (.leaf value)
      else (List.replicate N (.branch 0 0))[k]? := by
  show (((List.replicate N (RNode.branch 0 0)).set 0 (.branch 0 1)).set 1 (.leaf value))[k]? = _
  by_cases root : k = 0
  · rw [if_pos root, root, List.getElem?_set_ne (by omega),
      List.getElem?_set_self (by rw [List.length_replicate]; omega)]
  · rw [if_neg root]
    by_cases leaf : k = 1
    · rw [if_pos leaf, leaf, List.getElem?_set_self (by rw [List.length_set, List.length_replicate]; omega)]
    · rw [if_neg leaf, List.getElem?_set_ne (Ne.symm leaf), List.getElem?_set_ne (Ne.symm root)]

/-- The only branch in use of a tree of one token is the root. -/
theorem single_branch (room : 1 < N) {k start len : Nat} (used : k < 2)
    (found : (single token value : RTree N E B R).nodes[k]? = some (.branch start len)) :
    k = 0 ∧ start = 0 ∧ len = 1 := by
  rw [single_nodes room] at found
  split at found
  · rename_i root
    cases found
    exact ⟨root, rfl, rfl⟩
  · split at found
    · cases found
    · omega

/-- The only edge of a tree of one token. -/
theorem single_edges (room : 1 < N) {j e : Nat} :
    e ∈ (single token value : RTree N E B R).edgesOf j ↔ j = 0 ∧ e = 0 := by
  rw [mem_edgesOf]
  constructor
  · rintro ⟨start, len, found, low, high⟩
    rw [single_nodes room] at found
    split at found
    · rename_i root
      cases found
      exact ⟨root, by omega⟩
    · split at found
      · cases found
      · have empty := List.eq_of_mem_replicate (List.mem_of_getElem? found)
        cases empty
        omega
  · rintro ⟨rfl, rfl⟩
    refine ⟨0, 1, ?_, by omega, by omega⟩
    rw [single_nodes room, if_pos rfl]

/-- The only leaf of a tree of one token. -/
theorem single_leaf (room : 1 < N) {k : Nat} {other : R} :
    (single token value : RTree N E B R).nodes[k]? = some (.leaf other) ↔ k = 1 ∧ other = value := by
  rw [single_nodes room]
  constructor
  · intro found
    split at found
    · cases found
    · split at found
      · rename_i leaf
        cases found
        exact ⟨leaf, rfl⟩
      · cases List.eq_of_mem_replicate (List.mem_of_getElem? found)
  · rintro ⟨rfl, rfl⟩
    rfl

/-- The tree of one token is built. -/
theorem single_built (rooms : 1 < N) (room : 0 < E) (branches : 0 < B) (nonempty : token ≠ []) :
    (single token value : RTree N E B R).Built (Function.update (fun _ => []) 1 token) := by
  have nodes : (single token value : RTree N E B R).nodes.length = N := by simp [single]
  have edge : (single token value : RTree N E B R).edges[0]? = some ⟨token, 1⟩ :=
    List.getElem?_set_self (by rw [List.length_replicate]; exact room)
  have below {j e : Nat} {edge' : REdge} (there : (single token value : RTree N E B R).Below j e edge') :
      j = 0 ∧ e = 0 ∧ edge' = ⟨token, 1⟩ := by
    obtain ⟨rfl, rfl⟩ := (single_edges rooms).mp there.1
    exact ⟨rfl, rfl, Option.some.inj (there.2.symm.trans edge)⟩
  have leaf : 1 ∈ (single token value : RTree N E B R).leaves :=
    mem_leaves.mpr ⟨value, (single_leaf rooms).mpr ⟨rfl, rfl⟩⟩
  constructor
  case labelled =>
    apply labelled_of_below
    · omega
    · rfl
    · intro j e member
      obtain ⟨-, rfl⟩ := (single_edges rooms).mp member
      exact ⟨_, edge⟩
    · intro j e edge' there
      obtain ⟨rfl, -, rfl⟩ := below there
      exact ⟨nonempty, nodes.symm ▸ rooms, rfl⟩
  case bears =>
    intro j _
    by_cases here : j = 1
    · rw [here]
      exact .inl leaf
    · right
      use 1, leaf
      rw [Function.update_of_ne here, Function.update_self]
      exact ⟨List.nil_prefix, nonempty.symm⟩
  case used => exact Nat.succ_pos 1
  case unused =>
    intro k late within
    have late : 2 ≤ k := late
    rw [nodes] at within
    rw [single_nodes rooms, if_neg (by omega), if_neg (by omega), List.getElem?_replicate_of_lt within,
      Function.update_of_ne (by omega)]
    exact ⟨rfl, rfl⟩
  case block =>
    intro k start len used found
    obtain ⟨-, rfl, rfl⟩ := single_branch rooms used found
    exact ⟨branches, Nat.le_of_eq (Nat.zero_add B)⟩
  case apart =>
    intro i j start len start' len' usedI usedJ differ foundI foundJ
    obtain ⟨rfl, -⟩ := single_branch rooms usedI foundI
    obtain ⟨rfl, -⟩ := single_branch rooms usedJ foundJ
    exact absurd rfl differ
  case distinct =>
    intro i e e' edge' edge'' there there' _
    rw [(below there).2.1, (below there').2.1]
  case hangs =>
    intro k positive used
    have used : k < 2 := used
    have one : k = 1 := by omega
    rw [one]
    exact ⟨0, 0, _, ⟨(single_edges rooms).mpr ⟨rfl, rfl⟩, edge⟩, rfl⟩

/-- A tree of one token holds that token. -/
theorem single_holds (rooms : 1 < N) :
    (single token value : RTree N E B R).Holds (Function.update (fun _ => []) 1 token) [(token, value)] := by
  intro token' value'
  rw [List.mem_singleton]
  constructor
  · intro pair
    cases pair
    exact ⟨1, (single_leaf rooms).mpr ⟨rfl, rfl⟩, rfl⟩
  · rintro ⟨k, leaf, spelled⟩
    obtain ⟨rfl, rfl⟩ := (single_leaf rooms).mp leaf
    rw [← spelled]
    rfl

end First

/-! ## A sequence of insertions -/

/-- Insert tokens one after the other. -/
def insertAll (t : RTree N E B R) (tokens : List (Bytes × R)) : Option (RTree N E B R) :=
  tokens.foldlM (fun t entry => t.insert entry.1 entry.2) t

/-- Further insertions keep a tree built. -/
theorem Built.insertAll {t : RTree N E B R} {label : Nat → Bytes} (built : t.Built label)
    {before : List (Bytes × R)} (holds : t.Holds label before) (branches : 0 < B) {tokens : List (Bytes × R)}
    {t' : RTree N E B R} (inserted : t.insertAll tokens = some t') :
    ∃ label', t'.Built label' ∧ t'.Holds label' (before ++ tokens) := by
  induction tokens generalizing t label before with
  | nil =>
    cases inserted
    rw [List.append_nil]
    exact ⟨label, built, holds⟩
  | cons entry tokens ih =>
    obtain ⟨token, value⟩ := entry
    simp only [RTree.insertAll, List.foldlM_cons, Option.bind_eq_bind, Option.bind_eq_some_iff] at inserted
    obtain ⟨middle, once, later⟩ := inserted
    obtain ⟨label', built', holds'⟩ := built.insert holds branches once
    have more := ih built' holds' later
    rwa [List.append_assoc] at more

/-- What insertions into the empty tree make is built. -/
theorem insertAll_built (branches : 0 < B) {tokens : List (Bytes × R)} (some_token : tokens ≠ [])
    (nonempty : ∀ entry ∈ tokens, entry.1 ≠ []) {t : RTree N E B R}
    (inserted : (new : RTree N E B R).insertAll tokens = some t) :
    ∃ label, t.Built label ∧ t.Holds label tokens := by
  cases tokens with
  | nil => exact absurd rfl some_token
  | cons entry tokens =>
    obtain ⟨token, value⟩ := entry
    simp only [insertAll, List.foldlM_cons, Option.bind_eq_bind, Option.bind_eq_some_iff] at inserted
    obtain ⟨middle, once, later⟩ := inserted
    obtain ⟨rfl, rooms, room⟩ := insert_new once
    have first := nonempty (token, value) List.mem_cons_self
    exact (single_built rooms room branches first).insertAll (single_holds rooms) branches later

/-! ## Lookups in pieces -/

/-- `lookup` on one buffer after the other: only a lookup that needs more is followed by another, which goes on from
its cursor, and the bytes of the calls are counted together. -/
def lookupAll (t : RTree N E B R) (state : RLookup) (piece : Bytes) : List Bytes → Option (RMatch × RLookup)
  | [] => t.lookup piece state 0
  | next :: rest => do
    match ← t.lookup piece state 0 with
    | (.needsMore, state) =>
      let (result, state) ← lookupAll t state next rest
      some (result.shift piece.length, state)
    | decided => some decided

/-- Where the input is split does not matter. -/
theorem lookupAll_eq (t : RTree N E B R) (state : RLookup) (piece : Bytes) (pieces : List Bytes) :
    t.lookupAll state piece pieces = t.lookup (piece ++ pieces.flatten) state 0 := by
  induction pieces generalizing piece state with
  | nil =>
    rw [List.flatten_nil, List.append_nil]
    rfl
  | cons next rest ih =>
    rw [List.flatten_cons]
    simp only [lookupAll, Option.bind_eq_bind]
    cases looked : t.lookup piece state 0 with
    | none =>
      rw [lookup_append_none _ looked]
      rfl
    | some result =>
      obtain ⟨found, cursor⟩ := result
      cases found with
      | matched read =>
        rw [lookup_append_final _ looked (by rintro ⟨⟩)]
        rfl
      | mismatch read =>
        rw [lookup_append_final _ looked (by rintro ⟨⟩)]
        rfl
      | needsMore =>
        rw [lookup_append_more _ looked, Nat.zero_add]
        show (t.lookupAll cursor next rest).bind _ = _
        rw [ih, ← Nat.add_zero piece.length, lookup_shift, Option.map_eq_bind]
        rfl

/-- What a lookup of some input says about the tokens of a tree. -/
structure Recognises (t : RTree N E B R) (tokens : List (Bytes × R)) (input : Bytes) (result : RMatch)
    (state : RLookup) : Prop where
  /-- Input that starts with a token is matched after the token, with its value. -/
  matched : ∀ token value, (token, value) ∈ tokens → token <+: input →
    result = .matched token.length ∧ t.getValue state = some value
  /-- Nothing else is matched. -/
  of_matched : ∀ read, result = .matched read →
    ∃ token value, (token, value) ∈ tokens ∧ token <+: input ∧ read = token.length ∧ t.getValue state = some value
  /-- Input needs more exactly when it is a proper beginning of a token. -/
  needsMore : result = .needsMore ↔ ∃ token value, (token, value) ∈ tokens ∧ input <+: token ∧ input ≠ token
  /-- Every other input is a mismatch. -/
  mismatch : (∃ read, result = .mismatch read) ↔
    ∀ token value, (token, value) ∈ tokens → ¬ token <+: input ∧ ¬ (input <+: token ∧ input ≠ token)

/-- One of two tokens starts with the other. -/
def Comparable (token other : Bytes) : Prop := token <+: other ∨ other <+: token

section Recognition

variable {t : RTree N E B R} {label : Nat → Bytes} {tokens : List (Bytes × R)}

/-- A tree that was built recognises its tokens. -/
theorem Built.recognises (built : t.Built label) (holds : t.Holds label tokens) (input : Bytes) :
    ∃ result state, t.lookup input (.node 0) 0 = some (result, state) ∧ t.Recognises tokens input result state := by
  have selects := built.selects
  obtain ⟨⟨result, state⟩, looked, -⟩ := lookup_sound selects.labelled input selects.start 0
  -- A token at the start of the input decides the lookup.
  have hit (token : Bytes) (value : R) (member : (token, value) ∈ tokens) (starts : token <+: input) :
      result = .matched token.length ∧ t.getValue state = some value := by
    obtain ⟨k, leaf, spelled⟩ := (holds token value).mp member
    obtain ⟨rest, joined⟩ := starts
    have walked := selects.matched (mem_leaves.mpr ⟨value, leaf⟩) rest
    rw [spelled, joined, looked] at walked
    cases walked
    exact ⟨rfl, by simp [getValue, leaf]⟩
  -- A proper beginning of a token is not decided.
  have open_ (token : Bytes) (value : R) (member : (token, value) ∈ tokens) (starts : input <+: token)
      (proper : input ≠ token) : result = .needsMore := by
    apply Classical.byContradiction
    intro final
    obtain ⟨k, leaf, spelled⟩ := (holds token value).mp member
    obtain ⟨rest, joined⟩ := starts
    have walked := lookup_append_final rest looked final
    rw [joined, ← spelled, selects.spelled k (mem_leaves.mpr ⟨value, leaf⟩)] at walked
    cases walked
    have within := lookup_matched_le looked
    rw [spelled, ← joined, List.length_append, Nat.zero_add] at within
    have nothing : rest = [] := List.eq_nil_of_length_eq_zero (by omega)
    rw [nothing, List.append_nil] at joined
    exact proper joined
  have of_hit (read : Nat) (same : result = .matched read) : ∃ token value, (token, value) ∈ tokens ∧
      token <+: input ∧ read = token.length ∧ t.getValue state = some value := by
    rw [same] at looked
    obtain ⟨k, member, rfl, rfl, split⟩ := selects.of_matched looked
    obtain ⟨value, leaf⟩ := mem_leaves.mp member
    exact ⟨label k, value, (holds _ _).mpr ⟨k, leaf, rfl⟩, ⟨_, split.symm⟩, rfl, by simp [getValue, leaf]⟩
  have of_open (same : result = .needsMore) :
      ∃ token value, (token, value) ∈ tokens ∧ input <+: token ∧ input ≠ token := by
    rw [same] at looked
    obtain ⟨k, member, rest, nonempty, joined⟩ := selects.of_needsMore looked
    obtain ⟨value, leaf⟩ := mem_leaves.mp member
    refine ⟨label k, value, (holds _ _).mpr ⟨k, leaf, rfl⟩, ⟨rest, joined.symm⟩, ?_⟩
    rw [joined]
    exact fun equal => nonempty (List.self_eq_append_right.mp equal)
  use result, state, looked
  constructor
  case matched => exact hit
  case of_matched => exact of_hit
  case needsMore =>
    constructor
    · exact of_open
    · rintro ⟨token, value, member, starts, proper⟩
      exact open_ token value member starts proper
  case mismatch =>
    constructor
    · rintro ⟨read, rfl⟩ token value member
      constructor
      · intro starts
        cases (hit token value member starts).1
      · rintro ⟨starts, proper⟩
        cases open_ token value member starts proper
    · intro apart
      cases result with
      | matched read =>
        obtain ⟨token, value, member, starts, -⟩ := of_hit read rfl
        exact absurd starts (apart token value member).1
      | needsMore =>
        obtain ⟨token, value, member, starts, proper⟩ := of_open rfl
        exact absurd ⟨starts, proper⟩ (apart token value member).2
      | mismatch read => exact ⟨read, rfl⟩

/-- A token that starts another, or starts with it, is refused. -/
theorem Built.insert_comparable (built : t.Built label) (holds : t.Holds label tokens) {token other : Bytes}
    {value value' : R} (member : (other, value') ∈ tokens) (comparable : Comparable token other) :
    t.insert token value = none := by
  obtain ⟨result, state, looked, recognises⟩ := built.recognises holds token
  apply insert_shared built.used looked
  intro read same
  have apart := recognises.mismatch.mp ⟨read, same⟩ other value' member
  rcases comparable with starts | starts
  · by_cases equal : token = other
    · exact apart.1 (equal ▸ List.prefix_rfl)
    · exact apart.2 ⟨starts, equal⟩
  · exact apart.1 starts

end Recognition

/-- A tree that was filled without a panic recognises its tokens however the input is cut, refuses every token
comparable to one of them, and takes every other while it has room. -/
theorem insertAll_recognises (branches : 0 < B) {tokens : List (Bytes × R)} (some_token : tokens ≠ [])
    (nonempty : ∀ entry ∈ tokens, entry.1 ≠ []) {t : RTree N E B R}
    (inserted : (new : RTree N E B R).insertAll tokens = some t) :
    (∀ piece pieces, ∃ result state, t.lookupAll (.node 0) piece pieces = some (result, state) ∧
      t.Recognises tokens (piece ++ pieces.flatten) result state) ∧
    (∀ token value, (∃ entry ∈ tokens, Comparable token entry.1) → t.insert token value = none) ∧
    ∀ token value, (∀ entry ∈ tokens, ¬ Comparable token entry.1) → t.nodesLen + 1 < t.nodes.length →
      t.edgesLen + 1 < t.edges.length → 2 ≤ B → (∀ k start : Nat, t.nodes[k]? ≠ some (.branch start B)) →
      ∃ t', t.insert token value = some t' := by
  obtain ⟨label, built, holds⟩ := insertAll_built branches some_token nonempty inserted
  refine ⟨?_, ?_, ?_⟩
  · intro piece pieces
    rw [lookupAll_eq]
    exact built.recognises holds (piece ++ pieces.flatten)
  · rintro token value ⟨⟨other, value'⟩, member, comparable⟩
    exact built.insert_comparable holds member comparable
  · intro token value apart nodes edges forks branching
    obtain ⟨result, state, looked, recognises⟩ := built.recognises holds token
    obtain ⟨read, same⟩ : ∃ read, result = .mismatch read := by
      apply recognises.mismatch.mpr
      intro other value' member
      have separate := apart (other, value') member
      exact ⟨fun starts => separate (.inr starts), fun starts => separate (.inl starts.1)⟩
    rw [same] at looked
    exact built.insert_room looked nodes edges forks branching

/-- Three tokens, two of which share a byte. -/
theorem insertAll_three : ∃ t : RTree 7 9 3 Nat, new.insertAll [([1, 2], 0), ([1, 3], 1), ([2], 2)] = some t ∧
    ∀ piece pieces, ∃ result state, t.lookupAll (.node 0) piece pieces = some (result, state) ∧
      t.Recognises [([1, 2], 0), ([1, 3], 1), ([2], 2)] (piece ++ pieces.flatten) result state :=
  ⟨_, rfl, (insertAll_recognises (by decide) (by decide) (by decide) rfl).1⟩

/-- A tree without tokens asks for more, although no token is there to be finished. -/
theorem insertAll_empty : (new : RTree 7 9 3 Nat).insertAll [] = some new ∧
    ¬ ∃ result state, (new : RTree 7 9 3 Nat).lookupAll (.node 0) [] [] = some (result, state) ∧
      new.Recognises (R := Nat) (N := 7) (E := 9) (B := 3) [] [] result state := by
  refine ⟨rfl, ?_⟩
  rintro ⟨result, state, looked, recognises⟩
  cases looked
  obtain ⟨token, value, member, -⟩ := recognises.needsMore.mp rfl
  cases member

end RTree

end Harmonia.Nar
