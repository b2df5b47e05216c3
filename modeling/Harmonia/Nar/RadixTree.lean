import Mathlib.Data.List.Basic
import Mathlib.Algebra.Order.Ring.Nat
import Mathlib.Data.List.Infix
import Harmonia.Io.Poll

/-!
# The token matcher

`archive/radix_tree.rs`: a radix tree in two fixed arrays, filled by `insert` at compile time
and walked by `lookup` with a cursor that survives the end of a buffer. A panic of the source
is `none`. A tree is understood through a labelling of its nodes by the bytes that lead to
them (`Labelled`): a cursor stands after a word, and `lookup` classifies the input against
the labels of the leaves.
-/

namespace Harmonia.Nar

/-- `RLookup`: a cursor at a node, or some bytes into an edge. -/
inductive RLookup where
  /-- At a node. -/
  | node (idx : Nat)
  /-- Past the first `read` bytes of an edge. -/
  | edge (idx read : Nat)
  deriving DecidableEq, Repr

instance : Inhabited RLookup := ⟨.node 0⟩

/-- `RMatch`. -/
inductive RMatch where
  /-- A token ended after this many bytes. -/
  | matched (read : Nat)
  /-- The input ended inside a token. -/
  | needsMore
  /-- No token goes on with the byte at this position. -/
  | mismatch (read : Nat)
  deriving DecidableEq, Repr

/-- Count further bytes before a result. -/
def RMatch.shift (before : Nat) : RMatch → RMatch
  | .matched read => .matched (before + read)
  | .needsMore => .needsMore
  | .mismatch read => .mismatch (before + read)

/-- `REdge`. -/
structure REdge where
  /-- The bytes on the edge. -/
  prefixBytes : Bytes
  /-- The node below. -/
  nodeIdx : Nat
  deriving DecidableEq, Repr

/-- `RNode`: the first edge and the number of edges of a branch, or the value of a leaf. -/
inductive RNode (R : Type) where
  /-- Inner node. -/
  | branch (edgeIdx len : Nat)
  /-- End of a token. -/
  | leaf (value : R)
  deriving DecidableEq, Repr

/-- `RTree<N, E, B, R>`: arrays of `N` nodes and `E` edges, with at most `B` edges a branch. -/
structure RTree (N E B : Nat) (R : Type) where
  /-- Node array. -/
  nodes : List (RNode R)
  /-- Nodes in use. -/
  nodesLen : Nat
  /-- Edge array. -/
  edges : List REdge
  /-- Edges handed out to branches. -/
  edgesLen : Nat
  deriving DecidableEq, Repr

namespace RTree

variable {N E B : Nat} {R : Type}

/-- `RTree::new`. -/
def new : RTree N E B R :=
  ⟨List.replicate N (.branch 0 0), 0, List.replicate E ⟨[], 0⟩, 0⟩

/-- Overwrite an entry of an array; out of range is a panic. -/
def store {α : Type} (array : List α) (idx : Nat) (value : α) : Option (List α) :=
  if idx < array.length then some (array.set idx value) else none

/-- `add_leaf_node` and `add_branch_node`: append a node and return its index. -/
def addNode (t : RTree N E B R) (node : RNode R) : Option (Nat × RTree N E B R) := do
  let nodes ← store t.nodes t.nodesLen node
  some (t.nodesLen, { t with nodes := nodes, nodesLen := t.nodesLen + 1 })

/-- `add_edge_list`: hand out `B` edges to a new branch and fill the first. -/
def addEdgeList (t : RTree N E B R) (nodeIdx : Nat) (label : Bytes) :
    Option ((Nat × Nat) × RTree N E B R) := do
  let edges ← store t.edges t.edgesLen ⟨label, nodeIdx⟩
  some ((t.edgesLen, 1), { t with edges := edges, edgesLen := t.edgesLen + B })

/-- `add_edge`: a further edge of a branch. -/
def addEdge (t : RTree N E B R) (nodeIdx edgeNodeIdx : Nat) (label : Bytes) :
    Option (RTree N E B R) :=
  match t.nodes[nodeIdx]? with
  | some (.branch edgeIdx len) =>
    if len = B then none
    else do
      let edges ← store t.edges (edgeIdx + len) ⟨label, edgeNodeIdx⟩
      let nodes ← store t.nodes nodeIdx (.branch edgeIdx (len + 1))
      some { t with nodes := nodes, edges := edges }
  | _ => none

/-- `update_edge`. -/
def updateEdge (t : RTree N E B R) (edgeIdx nodeIdx : Nat) (label : Bytes) :
    Option (RTree N E B R) := do
  let edges ← store t.edges edgeIdx ⟨label, nodeIdx⟩
  some { t with edges := edges }

/-- The `while start < end` search of `lookup` for the edge that starts with a byte. -/
def findEdge (edges : List REdge) (byte : UInt8) : Nat → Nat → Option (Option Nat)
  | _, 0 => some none
  | start, len + 1 => do
    let edge ← edges[start]?
    let first ← edge.prefixBytes[0]?
    if byte = first then some (some start) else findEdge edges byte (start + 1) len

/-- Past the last byte of an edge the cursor is at the node below. -/
def settle (t : RTree N E B R) : RLookup → Option RLookup
  | .node idx => some (.node idx)
  | .edge idx read => do
    let edge ← t.edges[idx]?
    if read < edge.prefixBytes.length then some (.edge idx read)
    else if read = edge.prefixBytes.length then some (.node edge.nodeIdx)
    else none

/-- `lookup`: walk the tree along a buffer. The loop of the source compares an edge byte by
byte; here every byte is one call, and `settle` is its step from a finished edge to a node. -/
def lookup (t : RTree N E B R) : Bytes → RLookup → Nat → Option (RMatch × RLookup)
  | [], state, parsed => do
    match ← t.settle state with
    | .node idx =>
      match ← t.nodes[idx]? with
      | .leaf _ => some (.matched parsed, .node idx)
      | .branch _ _ => some (.needsMore, .node idx)
    | .edge idx read => some (.needsMore, .edge idx read)
  | byte :: rest, state, parsed => do
    match ← t.settle state with
    | .node idx =>
      match ← t.nodes[idx]? with
      | .leaf _ => some (.matched parsed, .node idx)
      | .branch start len =>
        match ← findEdge t.edges byte start len with
        | none => some (.mismatch parsed, .node idx)
        | some edge => lookup t rest (.edge edge 1) (parsed + 1)
    | .edge idx read =>
      let edge ← t.edges[idx]?
      let expected ← edge.prefixBytes[read]?
      if byte = expected then lookup t rest (.edge idx (read + 1)) (parsed + 1)
      else some (.mismatch parsed, .edge idx read)

/-- `get_value`. -/
def getValue (t : RTree N E B R) : RLookup → Option R
  | .node idx =>
    match t.nodes[idx]? with
    | some (.leaf value) => some value
    | _ => none
  | .edge _ _ => none

/-- `insert`: add a token, splitting the edge on which it leaves the tree. -/
def insert (t : RTree N E B R) (token : Bytes) (value : R) : Option (RTree N E B R) :=
  if t.nodesLen = 0 then do
    let ((edgeIdx, len), t) ← t.addEdgeList 1 token
    let (_, t) ← t.addNode (.branch edgeIdx len)
    let (_, t) ← t.addNode (.leaf value)
    some t
  else do
    match ← t.lookup token (.node 0) 0 with
    | (.mismatch idx, .node nodeIdx) =>
      let (newNodeIdx, t) ← t.addNode (.leaf value)
      t.addEdge nodeIdx newNodeIdx (token.drop idx)
    | (.mismatch idx, .edge edgeIdx read) =>
      let edge ← t.edges[edgeIdx]?
      let ((leftEdgeIdx, len), t) ← t.addEdgeList edge.nodeIdx (edge.prefixBytes.drop read)
      let (branchNodeIdx, t) ← t.addNode (.branch leftEdgeIdx len)
      let (leafNodeIdx, t) ← t.addNode (.leaf value)
      let t ← t.addEdge branchNodeIdx leafNodeIdx (token.drop idx)
      t.updateEdge edgeIdx branchNodeIdx (edge.prefixBytes.take read)
    | _ => none

/-- A settled cursor stays where it is. -/
theorem settle_settled {t : RTree N E B R} {state settled : RLookup}
    (moved : t.settle state = some settled) : t.settle settled = some settled := by
  cases state with
  | node idx =>
    simp only [settle, Option.some.injEq] at moved
    subst moved
    rfl
  | edge idx read =>
    simp only [settle, Option.bind_eq_bind, Option.bind_eq_some_iff] at moved
    obtain ⟨edge, found, moved⟩ := moved
    split at moved
    · rename_i inside
      cases moved
      simp [settle, found, inside]
    · split at moved
      · cases moved
        rfl
      · contradiction

/-- `lookup` starts from where its cursor settles. -/
theorem lookup_settled {t : RTree N E B R} {state settled : RLookup}
    (moved : t.settle state = some settled) (buf : Bytes) (parsed : Nat) :
    t.lookup buf state parsed = t.lookup buf settled parsed := by
  cases buf with
  | nil => simp only [lookup, moved, settle_settled moved]
  | cons byte rest => simp only [lookup, moved, settle_settled moved]

/-- What `lookup` says of the empty buffer. -/
theorem lookup_nil_eq {t : RTree N E B R} {state : RLookup} {parsed : Nat}
    {result : RMatch × RLookup} (looked : t.lookup [] state parsed = some result) :
    t.settle state = some result.2 ∧
      ((∃ idx value, result = (.matched parsed, .node idx) ∧ t.nodes[idx]? = some (.leaf value)) ∨
        (result.1 = .needsMore ∧ ∀ idx value, result.2 = .node idx →
          t.nodes[idx]? ≠ some (.leaf value))) := by
  simp only [lookup, Option.bind_eq_bind, Option.bind_eq_some_iff] at looked
  obtain ⟨settled, moved, looked⟩ := looked
  cases settled with
  | node idx =>
    simp only [Option.bind_eq_some_iff] at looked
    obtain ⟨found, at_idx, looked⟩ := looked
    cases found with
    | leaf value =>
      cases looked
      exact ⟨moved, .inl ⟨idx, value, rfl, at_idx⟩⟩
    | branch start len =>
      cases looked
      refine ⟨moved, .inr ⟨rfl, ?_⟩⟩
      intro other value same leaf
      cases same
      rw [at_idx] at leaf
      cases leaf
  | edge idx read =>
    cases looked
    exact ⟨moved, .inr ⟨rfl, fun _ _ same => by cases same⟩⟩

/-- How one byte moves the cursor: the result is final, or the walk goes on behind it. -/
theorem lookup_cons_eq {t : RTree N E B R} {state : RLookup} {byte : UInt8} {rest : Bytes}
    {parsed : Nat} {result : RMatch × RLookup}
    (looked : t.lookup (byte :: rest) state parsed = some result) :
    (((result.1 = .matched parsed ∧ t.lookup [] state parsed = some result) ∨
          result.1 = .mismatch parsed) ∧
        ∀ other, t.lookup (byte :: other) state parsed = some result) ∨
      (∃ next, t.lookup rest next (parsed + 1) = some result ∧
        ∀ other, t.lookup (byte :: other) state parsed = t.lookup other next (parsed + 1)) := by
  simp only [lookup, Option.bind_eq_bind, Option.bind_eq_some_iff] at looked
  obtain ⟨settled, moved, looked⟩ := looked
  cases settled with
  | node idx =>
    simp only [Option.bind_eq_some_iff] at looked
    obtain ⟨found, at_idx, looked⟩ := looked
    cases found with
    | leaf value =>
      cases looked
      exact .inl ⟨.inl ⟨rfl, by simp [lookup, moved, at_idx]⟩,
        fun other => by simp [lookup, moved, at_idx]⟩
    | branch start len =>
      simp only [Option.bind_eq_some_iff] at looked
      obtain ⟨choice, searched, looked⟩ := looked
      cases choice with
      | none =>
        cases looked
        exact .inl ⟨.inr rfl, fun other => by simp [lookup, moved, at_idx, searched]⟩
      | some edge =>
        exact .inr ⟨.edge edge 1, looked, fun other => by
          simp [lookup, moved, at_idx, searched]⟩
  | edge idx read =>
    simp only [Option.bind_eq_some_iff] at looked
    obtain ⟨edge, at_idx, expected, at_read, looked⟩ := looked
    split at looked
    · rename_i same
      exact .inr ⟨.edge idx (read + 1), looked, fun other => by
        simp [lookup, moved, at_idx, at_read, same]⟩
    · rename_i differs
      cases looked
      exact .inl ⟨.inr rfl, fun other => by simp [lookup, moved, at_idx, at_read, differs]⟩

/-- A lookup that needs more goes on where it stopped. -/
theorem lookup_append_more {t : RTree N E B R} {a : Bytes} (b : Bytes) {state next : RLookup}
    {parsed : Nat} (looked : t.lookup a state parsed = some (.needsMore, next)) :
    t.lookup (a ++ b) state parsed = t.lookup b next (parsed + a.length) := by
  induction a generalizing state parsed with
  | nil =>
    obtain ⟨moved, _⟩ := lookup_nil_eq looked
    simpa using lookup_settled moved b parsed
  | cons byte rest ih =>
    rcases lookup_cons_eq looked with ⟨final, _⟩ | ⟨middle, later, same⟩
    · simp at final
    · rw [List.cons_append, same, ih later, List.length_cons]
      congr 1
      omega

/-- The cursor of a lookup that needs more is settled. -/
theorem settled_of_needsMore {t : RTree N E B R} {buf : Bytes} {state next : RLookup}
    {parsed : Nat} (looked : t.lookup buf state parsed = some (.needsMore, next)) :
    t.settle next = some next := by
  induction buf generalizing state parsed with
  | nil => exact settle_settled (lookup_nil_eq looked).1
  | cons byte rest ih =>
    rcases lookup_cons_eq looked with ⟨final, _⟩ | ⟨middle, later, _⟩
    · simp at final
    · exact ih later

/-- A lookup that is decided does not look at later bytes. -/
theorem lookup_append_final {t : RTree N E B R} {a : Bytes} (b : Bytes) {state : RLookup}
    {parsed : Nat} {result : RMatch × RLookup} (looked : t.lookup a state parsed = some result)
    (final : result.1 ≠ .needsMore) : t.lookup (a ++ b) state parsed = some result := by
  induction a generalizing state parsed with
  | nil =>
    obtain ⟨moved, ⟨idx, value, same, leaf⟩ | ⟨more, _⟩⟩ := lookup_nil_eq looked
    · rw [same] at moved ⊢
      cases b <;> simp [lookup, moved, leaf]
    · exact absurd more final
  | cons byte rest ih =>
    rcases lookup_cons_eq looked with ⟨_, decided⟩ | ⟨middle, later, same⟩
    · exact decided _
    · rw [List.cons_append, same, ih later]

/-- A panic in a lookup does not depend on later bytes. -/
theorem lookup_append_none {t : RTree N E B R} {a : Bytes} (b : Bytes) {state : RLookup}
    {parsed : Nat} (looked : t.lookup a state parsed = none) :
    t.lookup (a ++ b) state parsed = none := by
  induction a generalizing state parsed with
  | nil =>
    cases b with
    | nil => exact looked
    | cons byte rest =>
      simp only [List.nil_append]
      simp only [lookup, Option.bind_eq_bind] at looked ⊢
      cases moved : t.settle state with
      | none => rfl
      | some settled =>
        rw [moved] at looked
        cases settled with
        | node idx =>
          cases at_idx : t.nodes[idx]? with
          | none => simp [at_idx]
          | some found => cases found <;> simp [at_idx] at looked
        | edge idx read => simp at looked
  | cons byte rest ih =>
    simp only [List.cons_append, lookup, Option.bind_eq_bind] at looked ⊢
    cases moved : t.settle state with
    | none => rfl
    | some settled =>
      rw [moved] at looked
      cases settled with
      | node idx =>
        cases at_idx : t.nodes[idx]? with
        | none => simp [at_idx]
        | some found =>
          cases found with
          | leaf value => simp [at_idx] at looked
          | branch start len =>
            cases searched : findEdge t.edges byte start len with
            | none => simp [at_idx, searched]
            | some choice =>
              cases choice with
              | none => simp [at_idx, searched] at looked
              | some edge =>
                simp only [at_idx, searched, Option.bind_some] at looked ⊢
                exact ih looked
      | edge idx read =>
        cases at_idx : t.edges[idx]? with
        | none => simp [at_idx]
        | some edge =>
          cases at_read : edge.prefixBytes[read]? with
          | none => simp [at_idx, at_read]
          | some expected =>
            simp only [at_idx, at_read, Option.bind_some] at looked ⊢
            split at looked
            · rename_i same
              rw [if_pos same]
              exact ih looked
            · contradiction

/-- A match lies within the bytes shown. -/
theorem lookup_matched_le {t : RTree N E B R} {buf : Bytes} {state next : RLookup}
    {parsed read : Nat} (looked : t.lookup buf state parsed = some (.matched read, next)) :
    read ≤ parsed + buf.length := by
  induction buf generalizing state parsed with
  | nil =>
    obtain ⟨_, ⟨idx, value, same, _⟩ | ⟨more, _⟩⟩ := lookup_nil_eq looked
    · cases same
      exact Nat.le_add_right _ _
    · cases more
  | cons byte rest ih =>
    rcases lookup_cons_eq looked with ⟨final, _⟩ | ⟨middle, later, _⟩
    · rcases final with ⟨same, _⟩ | same <;> cases same
      exact Nat.le_add_right _ _
    · have := ih later
      simp only [List.length_cons]
      omega

/-- A match depends only on the bytes it has read. -/
theorem lookup_matched_take {t : RTree N E B R} {buf : Bytes} {state next : RLookup}
    {parsed read : Nat} (looked : t.lookup buf state parsed = some (.matched read, next)) :
    parsed ≤ read ∧
      t.lookup (buf.take (read - parsed)) state parsed = some (.matched read, next) := by
  induction buf generalizing state parsed with
  | nil =>
    obtain ⟨_, ⟨idx, value, same, _⟩ | ⟨more, _⟩⟩ := lookup_nil_eq looked
    · cases same
      exact ⟨Nat.le_refl _, by rwa [List.take_nil]⟩
    · cases more
  | cons byte rest ih =>
    rcases lookup_cons_eq looked with ⟨final, _⟩ | ⟨middle, later, same⟩
    · rcases final with ⟨same, atOnce⟩ | same <;> cases same
      exact ⟨Nat.le_refl _, by rwa [Nat.sub_self, List.take_zero]⟩
    · obtain ⟨ahead, taken⟩ := ih later
      have split : read - parsed = (read - (parsed + 1)) + 1 := by omega
      exact ⟨by omega, by rw [split, List.take_succ_cons, same, taken]⟩

/-- The bytes parsed before a lookup are only counted. -/
theorem lookup_shift (t : RTree N E B R) (buf : Bytes) (state : RLookup) (before parsed : Nat) :
    t.lookup buf state (before + parsed) =
      (t.lookup buf state parsed).map fun result => (result.1.shift before, result.2) := by
  induction buf generalizing state parsed with
  | nil =>
    simp only [lookup, Option.bind_eq_bind]
    cases t.settle state with
    | none => rfl
    | some settled =>
      cases settled with
      | node idx =>
        cases at_idx : t.nodes[idx]? with
        | none => simp [at_idx]
        | some found => cases found <;> simp [at_idx, RMatch.shift]
      | edge idx read => rfl
  | cons byte rest ih =>
    simp only [lookup, Option.bind_eq_bind]
    cases t.settle state with
    | none => rfl
    | some settled =>
      cases settled with
      | node idx =>
        cases at_idx : t.nodes[idx]? with
        | none => simp [at_idx]
        | some found =>
          cases found with
          | leaf value => simp [at_idx, RMatch.shift]
          | branch start len =>
            cases searched : findEdge t.edges byte start len with
            | none => simp [at_idx, searched]
            | some choice =>
              cases choice with
              | none => simp [at_idx, searched, RMatch.shift]
              | some edge =>
                simp only [at_idx, searched, Option.bind_some]
                rw [Nat.add_assoc, ih]
      | edge idx read =>
        cases at_idx : t.edges[idx]? with
        | none => simp [at_idx]
        | some edge =>
          cases at_read : edge.prefixBytes[read]? with
          | none => simp [at_idx, at_read]
          | some expected =>
            simp only [at_idx, at_read, Option.bind_some]
            split
            · rw [Nat.add_assoc, ih]
            · rfl

/-! ## Trees whose nodes carry labels -/

/-- The edges of a node. -/
def edgesOf (t : RTree N E B R) (idx : Nat) : List Nat :=
  match t.nodes[idx]? with
  | some (.branch start len) => List.range' start len
  | _ => []

/-- Every node is labelled by the bytes that lead to it: an edge adds its own, and has some. -/
def Labelled (t : RTree N E B R) (label : Nat → Bytes) : Prop :=
  0 < t.nodes.length ∧ label 0 = [] ∧
    ∀ i ∈ List.range t.nodes.length, ∀ e ∈ t.edgesOf i,
      match t.edges[e]? with
      | some edge => edge.prefixBytes ≠ [] ∧ edge.nodeIdx < t.nodes.length ∧
          label edge.nodeIdx = label i ++ edge.prefixBytes
      | none => False

instance (t : RTree N E B R) (label : Nat → Bytes) : Decidable (t.Labelled label) := by
  unfold Labelled
  have (i e : Nat) : Decidable (match t.edges[e]? with
      | some edge => edge.prefixBytes ≠ [] ∧ edge.nodeIdx < t.nodes.length ∧
          label edge.nodeIdx = label i ++ edge.prefixBytes
      | none => False) :=
    match t.edges[e]? with
    | some _ => inferInstance
    | none => inferInstance
  exact inferInstance

/-- The indices of the leaves. -/
def leaves (t : RTree N E B R) : List Nat :=
  (List.range t.nodes.length).filter fun idx =>
    match t.nodes[idx]? with
    | some (.leaf _) => true
    | _ => false

/-- Every node is a leaf or lies strictly above one. -/
def Bears (t : RTree N E B R) (label : Nat → Bytes) : Prop :=
  ∀ i ∈ List.range t.nodes.length, i ∈ t.leaves ∨
    ∃ k ∈ t.leaves, label i <+: label k ∧ label i ≠ label k

instance (t : RTree N E B R) (label : Nat → Bytes) : Decidable (t.Bears label) := by
  unfold Bears
  exact inferInstance

/-- A node is in the list of leaves exactly when it holds a value. -/
theorem mem_leaves {t : RTree N E B R} {idx : Nat} :
    idx ∈ t.leaves ↔ ∃ value, t.nodes[idx]? = some (.leaf value) := by
  unfold leaves
  rw [List.mem_filter, List.mem_range]
  constructor
  · rintro ⟨_, holds⟩
    split at holds
    · rename_i value found
      exact ⟨value, found⟩
    · contradiction
  · rintro ⟨value, found⟩
    exact ⟨(List.getElem?_eq_some_iff.mp found).1, by rw [found]⟩

/-- A cursor stands after a word: at the node of that label, or inside an edge below one. -/
inductive Stands (t : RTree N E B R) (label : Nat → Bytes) : RLookup → Bytes → Prop where
  /-- At a node. -/
  | node {idx : Nat} (inside : idx < t.nodes.length) : Stands t label (.node idx) (label idx)
  /-- Inside an edge. -/
  | edge {idx e read : Nat} {edge : REdge} (inside : idx < t.nodes.length)
      (below : e ∈ t.edgesOf idx) (found : t.edges[e]? = some edge)
      (within : read ≤ edge.prefixBytes.length) :
      Stands t label (.edge e read) (label idx ++ edge.prefixBytes.take read)

/-- An edge of a labelled tree is there, has bytes, and leads to the longer label. -/
theorem Labelled.edge {t : RTree N E B R} {label : Nat → Bytes} (labelled : t.Labelled label)
    {idx e : Nat} (inside : idx < t.nodes.length) (below : e ∈ t.edgesOf idx) :
    ∃ edge, t.edges[e]? = some edge ∧ edge.prefixBytes ≠ [] ∧
      edge.nodeIdx < t.nodes.length ∧ label edge.nodeIdx = label idx ++ edge.prefixBytes := by
  have law := labelled.2.2 idx (List.mem_range.mpr inside) e below
  split at law
  · rename_i edge found
    exact ⟨edge, found, law⟩
  · contradiction

/-- Settling keeps the word a cursor stands after. -/
theorem Stands.settle {t : RTree N E B R} {label : Nat → Bytes} (labelled : t.Labelled label)
    {state : RLookup} {word : Bytes} (stands : t.Stands label state word) :
    ∃ settled, t.settle state = some settled ∧ t.Stands label settled word ∧
      ∀ e read, settled = .edge e read →
        ∃ edge, t.edges[e]? = some edge ∧ read < edge.prefixBytes.length := by
  cases stands with
  | node inside => exact ⟨_, rfl, .node inside, fun _ _ same => by cases same⟩
  | @edge idx e read edge inside below found within =>
    by_cases short : read < edge.prefixBytes.length
    · refine ⟨.edge e read, by simp [RTree.settle, found, short],
        .edge inside below found within, ?_⟩
      rintro _ _ ⟨⟩
      exact ⟨edge, found, short⟩
    · have whole : read = edge.prefixBytes.length := by omega
      obtain ⟨other, found', nonempty, target, extends_⟩ := labelled.edge inside below
      rw [found] at found'
      cases found'
      refine ⟨.node edge.nodeIdx, by simp [RTree.settle, found, whole], ?_,
        fun _ _ same => by cases same⟩
      rw [whole, List.take_length, ← extends_]
      exact .node target

/-- The search of a branch returns one of its edges, which starts with the byte. -/
theorem findEdge_sound {t : RTree N E B R} {label : Nat → Bytes} {idx : Nat}
    (labelled : t.Labelled label) (inside : idx < t.nodes.length) (byte : UInt8) :
    ∀ (start len : Nat), (∀ e ∈ List.range' start len, e ∈ t.edgesOf idx) →
      ∃ choice, findEdge t.edges byte start len = some choice ∧
        ∀ e, choice = some e → e ∈ t.edgesOf idx ∧
          ∃ edge, t.edges[e]? = some edge ∧ edge.prefixBytes[0]? = some byte := by
  intro start len
  induction len generalizing start with
  | zero =>
    intro _
    exact ⟨none, rfl, fun _ none => by cases none⟩
  | succ len ih =>
    intro below
    have here : start ∈ t.edgesOf idx := below start (by simp)
    obtain ⟨edge, found, nonempty, _⟩ := labelled.edge inside here
    obtain ⟨first, tail, split⟩ := List.exists_cons_of_ne_nil nonempty
    have head : edge.prefixBytes[0]? = some first := by simp [split]
    by_cases same : byte = first
    · refine ⟨some start, by simp [findEdge, found, head, same], ?_⟩
      rintro _ ⟨⟩
      exact ⟨here, edge, found, same ▸ head⟩
    · obtain ⟨choice, searched, sound⟩ := ih (start + 1) fun e inRange => below e (by
        rw [List.mem_range'_1] at inRange ⊢
        omega)
      exact ⟨choice, by simp [findEdge, found, head, same, searched], sound⟩

/-- What a result of `lookup` says about the bytes read, from a cursor after `word`. -/
def Sound (t : RTree N E B R) (label : Nat → Bytes) (word buf : Bytes) (parsed : Nat) :
    RMatch × RLookup → Prop
  | (.matched read, state) => ∃ idx value count, state = .node idx ∧
      t.nodes[idx]? = some (.leaf value) ∧ count ≤ buf.length ∧ read = parsed + count ∧
      label idx = word ++ buf.take count
  | (.needsMore, state) => t.Stands label state (word ++ buf) ∧
      ∀ idx value, state = .node idx → t.nodes[idx]? ≠ some (.leaf value)
  | (.mismatch _, _) => True

/-- A byte read before the others belongs to the word. -/
theorem sound_cons {t : RTree N E B R} {label : Nat → Bytes} {word rest : Bytes} {byte : UInt8}
    {parsed : Nat} {result : RMatch × RLookup}
    (sound : t.Sound label (word ++ [byte]) rest (parsed + 1) result) :
    t.Sound label word (byte :: rest) parsed result := by
  obtain ⟨found, state⟩ := result
  cases found with
  | matched read =>
    obtain ⟨idx, value, count, same, leaf, within, total, spelled⟩ := sound
    exact ⟨idx, value, count + 1, same, leaf, by simpa using within, by omega, by simp [spelled]⟩
  | needsMore =>
    obtain ⟨stands, notLeaf⟩ := sound
    exact ⟨by simpa using stands, notLeaf⟩
  | mismatch read => trivial

/-- In a labelled tree `lookup` never panics, and reads what the labels say. -/
theorem lookup_sound {t : RTree N E B R} {label : Nat → Bytes} (labelled : t.Labelled label)
    (buf : Bytes) {state : RLookup} {word : Bytes} (stands : t.Stands label state word)
    (parsed : Nat) :
    ∃ result, t.lookup buf state parsed = some result ∧ t.Sound label word buf parsed result := by
  induction buf generalizing state word parsed with
  | nil =>
    obtain ⟨settled, moved, stands, _⟩ := stands.settle labelled
    cases stands with
    | @node idx inside =>
      obtain ⟨found, at_idx⟩ : ∃ found, t.nodes[idx]? = some found :=
        ⟨_, List.getElem?_eq_getElem inside⟩
      cases found with
      | leaf value =>
        exact ⟨(.matched parsed, .node idx), by simp [lookup, moved, at_idx],
          idx, value, 0, rfl, at_idx, Nat.le_refl _, rfl, by simp⟩
      | branch start len =>
        refine ⟨(.needsMore, .node idx), by simp [lookup, moved, at_idx], ?_, ?_⟩
        · simpa using Stands.node inside
        · rintro _ value ⟨⟩ leaf
          rw [at_idx] at leaf
          cases leaf
    | @edge idx e read edge inside below found within =>
      refine ⟨(.needsMore, .edge e read), by simp [lookup, moved], ?_, fun _ _ same => by cases same⟩
      simpa using Stands.edge inside below found within
  | cons byte rest ih =>
    obtain ⟨settled, moved, stands, unfinished⟩ := stands.settle labelled
    cases stands with
    | @node idx inside =>
      obtain ⟨found, at_idx⟩ : ∃ found, t.nodes[idx]? = some found :=
        ⟨_, List.getElem?_eq_getElem inside⟩
      cases found with
      | leaf value =>
        exact ⟨(.matched parsed, .node idx), by simp [lookup, moved, at_idx],
          idx, value, 0, rfl, at_idx, Nat.zero_le _, rfl, by simp⟩
      | branch start len =>
        obtain ⟨choice, searched, chosen⟩ := findEdge_sound labelled inside byte start len
          (fun e inRange => by simpa [edgesOf, at_idx] using inRange)
        cases choice with
        | none =>
          exact ⟨(.mismatch parsed, .node idx), by simp [lookup, moved, at_idx, searched], trivial⟩
        | some e =>
          obtain ⟨below, edge, found, head⟩ := chosen e rfl
          obtain ⟨tail, split⟩ : ∃ tail, edge.prefixBytes = byte :: tail := by
            cases split : edge.prefixBytes with
            | nil => simp [split] at head
            | cons first tail =>
              rw [split] at head
              cases head
              exact ⟨tail, rfl⟩
          have one : edge.prefixBytes.take 1 = [byte] := by simp [split]
          have within : 1 ≤ edge.prefixBytes.length := by simp [split]
          obtain ⟨result, looked, sound⟩ := ih
            (Stands.edge inside below found within) (parsed + 1)
          refine ⟨result, by simpa [lookup, moved, at_idx, searched] using looked, ?_⟩
          rw [one] at sound
          exact sound_cons sound
    | @edge idx e read edge inside below found within =>
      obtain ⟨edge', found', short⟩ := unfinished e read rfl
      rw [found] at found'
      cases found'
      have at_read : edge.prefixBytes[read]? = some edge.prefixBytes[read] :=
        List.getElem?_eq_getElem short
      by_cases same : byte = edge.prefixBytes[read]
      · obtain ⟨result, looked, sound⟩ := ih
          (Stands.edge inside below found short) (parsed + 1)
        refine ⟨result, by simpa [lookup, moved, found, at_read, same] using looked, ?_⟩
        rw [List.take_add_one, at_read, ← same, ← List.append_assoc] at sound
        exact sound_cons sound
      · exact ⟨(.mismatch parsed, .edge e read),
          by simp [lookup, moved, found, at_read, same], trivial⟩

/-- A tree that selects among the labels of its leaves: each label is looked up to its leaf. -/
structure Selects (t : RTree N E B R) (label : Nat → Bytes) : Prop where
  /-- The labels are those of the tree. -/
  labelled : t.Labelled label
  /-- No branch is barren. -/
  bears : t.Bears label
  /-- Each leaf is found under its label. -/
  spelled : ∀ k ∈ t.leaves, t.lookup (label k) (.node 0) 0 =
    some (.matched (label k).length, .node k)

namespace Selects

variable {t : RTree N E B R} {label : Nat → Bytes}

/-- The default cursor stands at the start. -/
theorem start (selects : t.Selects label) : t.Stands label (.node 0) [] := by
  have root : t.Stands label (.node 0) (label 0) := .node selects.labelled.1
  rwa [selects.labelled.2.1] at root

/-- Input that starts with a label is matched at its leaf, whatever follows. -/
theorem matched (selects : t.Selects label) {k : Nat} (leaf : k ∈ t.leaves) (rest : Bytes) :
    t.lookup (label k ++ rest) (.node 0) 0 = some (.matched (label k).length, .node k) :=
  lookup_append_final rest (selects.spelled k leaf) (by simp)

/-- A match has read exactly the label of a leaf. -/
theorem of_matched (selects : t.Selects label) {buf : Bytes} {read : Nat} {state : RLookup}
    (looked : t.lookup buf (.node 0) 0 = some (.matched read, state)) :
    ∃ k ∈ t.leaves, state = .node k ∧ read = (label k).length ∧
      buf = label k ++ buf.drop read := by
  obtain ⟨result, looked', sound⟩ := lookup_sound selects.labelled buf selects.start 0
  rw [looked] at looked'
  cases looked'
  obtain ⟨k, value, count, same, found, within, total, spelled⟩ := sound
  have length : (label k).length = count := by simp [spelled, within]
  refine ⟨k, mem_leaves.mpr ⟨value, found⟩, same, by omega, ?_⟩
  rw [spelled, show read = count by omega]
  simp

/-- Input that needs more is a proper beginning of some label. -/
theorem of_needsMore (selects : t.Selects label) {buf : Bytes} {state : RLookup}
    (looked : t.lookup buf (.node 0) 0 = some (.needsMore, state)) :
    ∃ k ∈ t.leaves, ∃ tail, tail ≠ [] ∧ label k = buf ++ tail := by
  obtain ⟨result, looked', sound⟩ := lookup_sound selects.labelled buf selects.start 0
  rw [looked] at looked'
  cases looked'
  obtain ⟨stands, notLeaf⟩ := sound
  rw [List.nil_append] at stands
  -- A node below which the cursor stands leads to a leaf by `bears`.
  have below : ∀ idx, idx < t.nodes.length → ∃ k ∈ t.leaves, label idx <+: label k := by
    intro idx inside
    rcases selects.bears idx (List.mem_range.mpr inside) with leaf | ⟨k, leaf, shorter, _⟩
    · exact ⟨idx, leaf, List.prefix_rfl⟩
    · exact ⟨k, leaf, shorter⟩
  generalize spelled : buf = word at stands
  cases stands with
  | @node idx inside =>
    rcases selects.bears idx (List.mem_range.mpr inside) with leaf | ⟨k, leaf, shorter, proper⟩
    · obtain ⟨value, found⟩ := mem_leaves.mp leaf
      exact absurd found (notLeaf idx value rfl)
    · obtain ⟨tail, joined⟩ := shorter
      exact ⟨k, leaf, tail, fun empty => proper (by simpa [empty] using joined), joined.symm⟩
  | @edge idx e read edge inside edgeBelow found within =>
    obtain ⟨edge', found', _, target, longer⟩ := selects.labelled.edge inside edgeBelow
    rw [found] at found'
    cases found'
    obtain ⟨k, leaf, tail, joined⟩ := below edge.nodeIdx target
    refine ⟨k, leaf, edge.prefixBytes.drop read ++ tail, ?_, ?_⟩
    · -- A finished edge would have settled at its node.
      have settled := settled_of_needsMore looked
      simp only [settle, found, Option.bind_eq_bind, Option.bind_some] at settled
      split at settled
      · rename_i short
        intro empty
        have := congrArg List.length empty
        simp at this
        omega
      · split at settled <;> simp at settled
    · rw [← joined, longer]
      simp only [List.append_assoc, List.append_cancel_left_eq]
      rw [← List.append_assoc, List.take_append_drop]

/-- Input that no label starts with and that starts no label is a mismatch. -/
theorem of_mismatch (selects : t.Selects label) {buf : Bytes} {read : Nat} {state : RLookup}
    (looked : t.lookup buf (.node 0) 0 = some (.mismatch read, state)) {k : Nat}
    (leaf : k ∈ t.leaves) : ¬ label k <+: buf ∧ ¬ buf <+: label k := by
  constructor
  · rintro ⟨rest, rfl⟩
    rw [selects.matched leaf rest] at looked
    cases looked
  · rintro ⟨rest, joined⟩
    have decided := lookup_append_final rest looked (by simp)
    rw [joined, selects.spelled k leaf] at decided
    cases decided

end Selects

end RTree

end Harmonia.Nar
