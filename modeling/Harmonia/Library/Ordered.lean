import Mathlib.Data.List.Basic
import Mathlib.Data.List.Nodup
import Mathlib.Algebra.Order.Ring.Nat
import Mathlib.Order.Compare

/-!
# Ordered sets and maps

`BTreeSet` and `BTreeMap` as the sorted lists that iterating over them gives. What is written
in that order and inserted one by one makes the same set or map again.
-/

namespace Harmonia.Library

variable {α β : Type}

/-- Sorted without duplicates by a key. -/
def Ascending [Ord β] (key : α → β) (items : List α) : Prop :=
  items.Pairwise fun left right => compare (key left) (key right) = .lt

instance [Ord β] (key : α → β) (items : List α) : Decidable (Ascending key items) :=
  inferInstanceAs (Decidable (List.Pairwise _ _))

/-- Put an item at its place; `merge` says what becomes of an item with an equal key. -/
def place [Ord β] (key : α → β) (merge : α → α) (item : α) : List α → List α
  | [] => [item]
  | head :: rest =>
    match compare (key item) (key head) with
    | .lt => item :: head :: rest
    | .eq => merge head :: rest
    | .gt => head :: place key merge item rest

section Place

variable [Ord β] {key : α → β} {merge : α → α} {item : α}

/-- Whatever is below the item and below the first of the list is below the result. -/
theorem place_above {low : α} (keeps : ∀ other, key (merge other) = key other)
    (below : compare (key low) (key item) = .lt) {items : List α}
    (all : ∀ other ∈ items, compare (key low) (key other) = .lt) :
    ∀ other ∈ place key merge item items, compare (key low) (key other) = .lt := by
  induction items with
  | nil =>
    intro other member
    rw [List.mem_singleton.mp member]
    exact below
  | cons head rest ih =>
    have first := all head List.mem_cons_self
    have later : ∀ other ∈ rest, compare (key low) (key other) = .lt :=
      fun other member => all other (List.mem_cons_of_mem _ member)
    intro other member
    unfold place at member
    split at member
    · rcases List.mem_cons.mp member with rfl | old
      · exact below
      · exact all other old
    · rcases List.mem_cons.mp member with rfl | old
      · rw [keeps]
        exact first
      · exact later other old
    · rcases List.mem_cons.mp member with rfl | old
      · exact first
      · exact ih later other old

/-- An item put at its place leaves the list sorted. -/
theorem place_ascending [Std.TransOrd β] (keeps : ∀ other, key (merge other) = key other) {items : List α}
    (sorted : Ascending key items) : Ascending key (place key merge item items) := by
  induction items with
  | nil => exact List.pairwise_singleton _ _
  | cons head rest ih =>
    obtain ⟨first, later⟩ := List.pairwise_cons.mp sorted
    unfold place
    split
    case h_1 less =>
      apply List.pairwise_cons.mpr
      refine ⟨?_, sorted⟩
      intro other member
      rcases List.mem_cons.mp member with rfl | old
      · exact less
      · exact Std.TransCmp.lt_trans less (first other old)
    case h_2 =>
      apply List.pairwise_cons.mpr
      refine ⟨?_, later⟩
      intro other member
      rw [keeps]
      exact first other member
    case h_3 greater =>
      apply List.pairwise_cons.mpr
      refine ⟨?_, ih later⟩
      have less : compare (key head) (key item) = .lt := by
        rw [Std.OrientedOrd.eq_swap, greater]
        rfl
      exact place_above keeps less first

/-- An item above all others comes last. -/
theorem place_last [Std.OrientedOrd β] {items : List α}
    (above : ∀ other ∈ items, compare (key other) (key item) = .lt) :
    place key merge item items = items ++ [item] := by
  induction items with
  | nil => rfl
  | cons head rest ih =>
    have greater : compare (key item) (key head) = .gt := by
      rw [Std.OrientedOrd.eq_swap, above head List.mem_cons_self]
      rfl
    rw [place, greater]
    simp only [List.cons_append]
    rw [ih fun other member => above other (List.mem_cons_of_mem _ member)]

/-- What a list with a new item holds. -/
theorem mem_place {items : List α} {other : α} (member : other ∈ place key merge item items) :
    other = item ∨ other ∈ items ∨ ∃ old ∈ items, other = merge old := by
  induction items with
  | nil => exact .inl (List.mem_singleton.mp member)
  | cons head rest ih =>
    unfold place at member
    split at member
    · rcases List.mem_cons.mp member with rfl | old
      · exact .inl rfl
      · exact .inr (.inl old)
    · rcases List.mem_cons.mp member with rfl | old
      · exact .inr (.inr ⟨head, List.mem_cons_self, rfl⟩)
      · exact .inr (.inl (List.mem_cons_of_mem _ old))
    · rcases List.mem_cons.mp member with rfl | old
      · exact .inr (.inl List.mem_cons_self)
      · rcases ih old with same | kept | ⟨before, listed, merged⟩
        · exact .inl same
        · exact .inr (.inl (List.mem_cons_of_mem _ kept))
        · exact .inr (.inr ⟨before, List.mem_cons_of_mem _ listed, merged⟩)

/-- A new item adds no more than its own weight. -/
theorem place_weight (weight : α → Nat) (keeps : ∀ other, weight (merge other) = weight other)
    (items : List α) :
    ((place key merge item items).map weight).sum ≤ weight item + (items.map weight).sum := by
  induction items with
  | nil => exact Nat.le_refl _
  | cons head rest ih =>
    unfold place
    split
    · exact Nat.le_refl _
    · show weight (merge head) + (rest.map weight).sum ≤
        weight item + (weight head + (rest.map weight).sum)
      rw [keeps]
      omega
    · show weight head + ((place key merge item rest).map weight).sum ≤
        weight item + (weight head + (rest.map weight).sum)
      omega

/-- A new item adds at most one. -/
theorem place_length (items : List α) : (place key merge item items).length ≤ items.length + 1 := by
  induction items with
  | nil => exact Nat.le_refl _
  | cons head rest ih =>
    unfold place
    split
    · exact Nat.le_refl _
    · exact Nat.le_succ _
    · exact Nat.succ_le_succ ih

/-- A list with a new item is not empty. -/
theorem place_ne_nil (items : List α) : place key merge item items ≠ [] := by
  cases items with
  | nil => exact List.cons_ne_nil _ _
  | cons head rest =>
    unfold place
    split <;> exact List.cons_ne_nil _ _

/-- A list with a new item still holds the others, but for those that are merged. -/
theorem mem_place_of_mem {items : List α} {other : α} (member : other ∈ items) :
    other ∈ place key merge item items ∨
      compare (key item) (key other) = .eq ∧ merge other ∈ place key merge item items := by
  induction items with
  | nil => cases member
  | cons head rest ih =>
    unfold place
    split
    case h_1 => exact .inl (List.mem_cons_of_mem _ member)
    case h_2 same =>
      rcases List.mem_cons.mp member with rfl | later
      · exact .inr ⟨same, List.mem_cons_self⟩
      · exact .inl (List.mem_cons_of_mem _ later)
    case h_3 =>
      rcases List.mem_cons.mp member with rfl | later
      · exact .inl List.mem_cons_self
      · rcases ih later with kept | ⟨same, merged⟩
        · exact .inl (List.mem_cons_of_mem _ kept)
        · exact .inr ⟨same, List.mem_cons_of_mem _ merged⟩

/-- A list with a new item holds the item, or what an item with its key was merged to. -/
theorem place_mem (items : List α) : item ∈ place key merge item items ∨
    ∃ old ∈ items, compare (key item) (key old) = .eq ∧ merge old ∈ place key merge item items := by
  induction items with
  | nil => exact .inl List.mem_cons_self
  | cons head rest ih =>
    unfold place
    split
    case h_1 => exact .inl List.mem_cons_self
    case h_2 same => exact .inr ⟨head, List.mem_cons_self, same, List.mem_cons_self⟩
    case h_3 =>
      rcases ih with here | ⟨old, listed, same, merged⟩
      · exact .inl (List.mem_cons_of_mem _ here)
      · exact .inr ⟨old, List.mem_cons_of_mem _ listed, same, List.mem_cons_of_mem _ merged⟩

/-- A sorted list has one item of a key. -/
theorem Ascending.unique [Std.TransOrd β] [Std.LawfulEqOrd β] {items : List α} (sorted : Ascending key items)
    {first second : α} (listed : first ∈ items) (listed' : second ∈ items)
    (same : key first = key second) : first = second := by
  have irrefl (low : β) : compare low low ≠ .lt := by
    rw [Std.ReflOrd.compare_self]
    exact Ordering.noConfusion
  induction items with
  | nil => cases listed
  | cons head rest ih =>
    obtain ⟨above, later⟩ := List.pairwise_cons.mp sorted
    rcases List.mem_cons.mp listed with here | after
    · rcases List.mem_cons.mp listed' with here' | after'
      · rw [here, here']
      · exact absurd (here ▸ same ▸ above second after') (irrefl _)
    · rcases List.mem_cons.mp listed' with here' | after'
      · exact absurd (here' ▸ same ▸ above first after) (irrefl _)
      · exact ih later after after'

/-- Sorted lists with the same items are equal. -/
theorem Ascending.ext [Std.TransOrd β] {left right : List α} (first : Ascending key left)
    (second : Ascending key right) (same : ∀ item, item ∈ left ↔ item ∈ right) : left = right := by
  have irrefl (low : α) : compare (key low) (key low) ≠ .lt := by
    rw [Std.ReflOrd.compare_self]
    exact Ordering.noConfusion
  induction left generalizing right with
  | nil =>
    cases right with
    | nil => rfl
    | cons head rest => cases (same head).mpr List.mem_cons_self
  | cons head rest ih =>
    cases right with
    | nil => cases (same head).mp List.mem_cons_self
    | cons other others =>
      obtain ⟨above, sorted⟩ := List.pairwise_cons.mp first
      obtain ⟨above', sorted'⟩ := List.pairwise_cons.mp second
      -- Each of the two first items is the least of the same items.
      have heads : head = other := by
        rcases List.mem_cons.mp ((same head).mp List.mem_cons_self) with here | later
        · exact here
        rcases List.mem_cons.mp ((same other).mpr List.mem_cons_self) with here | later'
        · exact here.symm
        have less := above other later'
        have greater := above' head later
        exact absurd (Std.TransCmp.lt_trans less greater) (irrefl head)
      cases heads
      congr 1
      apply ih sorted sorted'
      intro item
      constructor
      · intro member
        rcases List.mem_cons.mp ((same item).mp (List.mem_cons_of_mem _ member)) with rfl | later
        · exact absurd (above _ member) (irrefl _)
        · exact later
      · intro member
        rcases List.mem_cons.mp ((same item).mpr (List.mem_cons_of_mem _ member)) with rfl | later
        · exact absurd (above' _ member) (irrefl _)
        · exact later

end Place

/-- `BTreeSet`. -/
structure BTreeSet (α : Type) [Ord α] where
  /-- The members in order. -/
  items : List α
  /-- They ascend. -/
  sorted : Ascending id items
  deriving DecidableEq

/-- `BTreeMap`. -/
structure BTreeMap (κ ν : Type) [Ord κ] where
  /-- The entries in the order of their keys. -/
  entries : List (κ × ν)
  /-- Their keys ascend. -/
  sorted : Ascending Prod.fst entries
  deriving DecidableEq

namespace BTreeSet

variable [Ord α]

/-- `BTreeSet::new`. -/
def empty : BTreeSet α := ⟨[], List.Pairwise.nil⟩

/-- `insert`: a member that is equal to the new item stays. -/
def insert [Std.TransOrd α] (set : BTreeSet α) (item : α) : BTreeSet α :=
  ⟨place id id item set.items, place_ascending (fun _ => rfl) set.sorted⟩

instance [Std.TransOrd α] : Ord (BTreeSet α) := ⟨compareOn items⟩

instance [Std.TransOrd α] : Std.TransOrd (BTreeSet α) :=
  inferInstanceAs (Std.TransCmp (compareOn (items : BTreeSet α → List α)))

/-- Sets with the same members are equal. -/
theorem ext {left right : BTreeSet α} (same : left.items = right.items) : left = right := by
  cases left
  cases right
  cases same
  rfl

/-- Sets with the same members are equal. -/
theorem ext_mem [Std.TransOrd α] {left right : BTreeSet α}
    (same : ∀ item, item ∈ left.items ↔ item ∈ right.items) : left = right :=
  ext (left.sorted.ext right.sorted same)

/-- The members of a set with a new one. -/
theorem mem_insert [Std.TransOrd α] [Std.LawfulEqOrd α] {set : BTreeSet α} {item other : α} :
    other ∈ (set.insert item).items ↔ other = item ∨ other ∈ set.items := by
  constructor
  · intro member
    rcases mem_place member with new | old | ⟨_, old, rfl⟩
    · exact .inl new
    · exact .inr old
    · exact .inr old
  · rintro (rfl | old)
    · rcases @place_mem α α _ id id other set.items with here | ⟨old, -, same, merged⟩
      · exact here
      · exact (Std.LawfulEqOrd.eq_of_compare same : other = old) ▸ merged
    · rcases @mem_place_of_mem α α _ id id item set.items other old with kept | ⟨-, kept⟩
      · exact kept
      · exact kept

/-- The members of a set into which items were inserted. -/
theorem mem_foldl_insert [Std.TransOrd α] [Std.LawfulEqOrd α] {items : List α} {set : BTreeSet α}
    {other : α} : other ∈ (items.foldl insert set).items ↔ other ∈ set.items ∨ other ∈ items := by
  induction items generalizing set with
  | nil => simp
  | cons item rest ih =>
    rw [List.foldl_cons, ih, mem_insert, List.mem_cons]
    tauto

/-- The members of a set, inserted in order into the set of the members before them, make the
set. -/
theorem insert_ascending [Std.TransOrd α] (items : List α) (set whole : BTreeSet α)
    (joins : whole.items = set.items ++ items) : items.foldl insert set = whole := by
  induction items generalizing set with
  | nil => exact ext (by rw [joins, List.append_nil]; rfl)
  | cons item rest ih =>
    apply ih
    have sorted : Ascending id (set.items ++ item :: rest) := joins ▸ whole.sorted
    have above : ∀ other ∈ set.items, compare (id other) (id item) = .lt :=
      fun other member => (List.pairwise_append.mp sorted).2.2 other member item List.mem_cons_self
    show whole.items = place id id item set.items ++ rest
    rw [place_last above, joins, List.append_assoc]
    rfl

/-- What inserted items and the set before them leave. -/
theorem mem_insert_all [Std.TransOrd α] {items : List α} {set : BTreeSet α} {other : α}
    (member : other ∈ (items.foldl insert set).items) : other ∈ set.items ∨ other ∈ items := by
  induction items generalizing set with
  | nil => exact .inl member
  | cons item rest ih =>
    rcases ih member with before | later
    · rcases mem_place before with rfl | old | ⟨_, old, rfl⟩
      · exact .inr List.mem_cons_self
      · exact .inl old
      · exact .inl old
    · exact .inr (List.mem_cons_of_mem _ later)

/-- Inserted items add no more than their weight. -/
theorem insert_all_weight [Std.TransOrd α] (weight : α → Nat) (items : List α) (set : BTreeSet α) :
    ((items.foldl insert set).items.map weight).sum ≤
      (set.items.map weight).sum + (items.map weight).sum := by
  induction items generalizing set with
  | nil => exact Nat.le_add_right _ _
  | cons item rest ih =>
    have one : ((set.insert item).items.map weight).sum ≤ weight item + (set.items.map weight).sum :=
      place_weight weight (fun _ => rfl) set.items
    have all := ih (set.insert item)
    rw [List.foldl_cons, List.map_cons, List.sum_cons]
    omega

/-- Inserted items add no more than their number. -/
theorem insert_all_length [Std.TransOrd α] (items : List α) (set : BTreeSet α) :
    (items.foldl insert set).items.length ≤ set.items.length + items.length := by
  induction items generalizing set with
  | nil => exact Nat.le_refl _
  | cons item rest ih =>
    have all := ih (set.insert item)
    have one : (set.insert item).items.length ≤ set.items.length + 1 := place_length set.items
    rw [List.foldl_cons, List.length_cons]
    omega

/-- A set into which something was inserted is not empty. -/
theorem insert_all_ne_nil [Std.TransOrd α] {items : List α} (some : items ≠ [])
    (set : BTreeSet α) : (items.foldl insert set).items ≠ [] := by
  induction items generalizing set with
  | nil => exact absurd rfl some
  | cons item rest ih =>
    cases rest with
    | nil => exact place_ne_nil set.items
    | cons second others => exact ih (List.cons_ne_nil _ _) (set.insert item)

end BTreeSet

namespace BTreeMap

variable {κ ν : Type} [Ord κ]

/-- `BTreeMap::new`. -/
def empty : BTreeMap κ ν := ⟨[], List.Pairwise.nil⟩

/-- `insert`: the value of an equal key is replaced, the key is not. -/
def insert [Std.TransOrd κ] (map : BTreeMap κ ν) (entry : κ × ν) : BTreeMap κ ν :=
  ⟨place Prod.fst (fun old => (old.1, entry.2)) entry map.entries,
    place_ascending (fun old => show old.1 = old.1 from rfl) map.sorted⟩

/-- `entry(key).or_default()` with a change of the value that is there then. -/
def change [Std.TransOrd κ] (map : BTreeMap κ ν) (key : κ) (absent : ν) (f : ν → ν) : BTreeMap κ ν :=
  ⟨place Prod.fst (fun old => (old.1, f old.2)) (key, f absent) map.entries,
    place_ascending (fun old => show old.1 = old.1 from rfl) map.sorted⟩

/-- Maps with the same entries are equal. -/
theorem ext {left right : BTreeMap κ ν} (same : left.entries = right.entries) : left = right := by
  cases left
  cases right
  cases same
  rfl

/-- The entries of a map, inserted in order into the map of the entries before them, make the
map. -/
theorem insert_ascending [Std.TransOrd κ] (entries : List (κ × ν)) (map whole : BTreeMap κ ν)
    (joins : whole.entries = map.entries ++ entries) : entries.foldl insert map = whole := by
  induction entries generalizing map with
  | nil => exact ext (by rw [joins, List.append_nil]; rfl)
  | cons entry rest ih =>
    apply ih
    have sorted : Ascending Prod.fst (map.entries ++ entry :: rest) := joins ▸ whole.sorted
    have above : ∀ other ∈ map.entries, compare other.1 entry.1 = .lt :=
      fun other member => (List.pairwise_append.mp sorted).2.2 other member entry List.mem_cons_self
    show whole.entries = place Prod.fst _ entry map.entries ++ rest
    rw [place_last above, joins, List.append_assoc]
    rfl

/-- Inserted entries add no more than their number. -/
theorem insert_all_length [Std.TransOrd κ] (entries : List (κ × ν)) (map : BTreeMap κ ν) :
    (entries.foldl insert map).entries.length ≤ map.entries.length + entries.length := by
  induction entries generalizing map with
  | nil => exact Nat.le_refl _
  | cons entry rest ih =>
    have all := ih (map.insert entry)
    have one : (map.insert entry).entries.length ≤ map.entries.length + 1 := place_length map.entries
    rw [List.foldl_cons, List.length_cons]
    omega

/-- What is true of the keys and of the values, before and of what is inserted, stays true. -/
theorem insert_all_forall [Std.TransOrd κ] {P : κ → Prop} {Q : ν → Prop}
    {entries : List (κ × ν)} {map : BTreeMap κ ν} (before : ∀ entry ∈ map.entries, P entry.1 ∧ Q entry.2)
    (new : ∀ entry ∈ entries, P entry.1 ∧ Q entry.2) :
    ∀ entry ∈ (entries.foldl insert map).entries, P entry.1 ∧ Q entry.2 := by
  induction entries generalizing map with
  | nil => exact before
  | cons entry rest ih =>
    have here := new entry List.mem_cons_self
    apply ih
    · intro other member
      rcases mem_place member with rfl | old | ⟨old, listed, rfl⟩
      · exact here
      · exact before other old
      · exact ⟨(before old listed).1, here.2⟩
    · exact fun other member => new other (List.mem_cons_of_mem _ member)

end BTreeMap

/-! ## Maps without an order

A `HashMap` is compared by its entries alone, so it is given by them in the order of the keys. -/

section Gathered

variable {κ ν : Type} [Ord κ]

/-- `HashMap::insert`: the last value of a key stands. -/
def inserted (map : List (κ × ν)) (entry : κ × ν) : List (κ × ν) :=
  place Prod.fst (fun old => (old.1, entry.2)) entry map

/-- Entries inserted one after the other. -/
def gathered (entries : List (κ × ν)) : List (κ × ν) := entries.foldl inserted []

variable [Std.TransOrd κ]

/-- A map stays one. -/
theorem inserted_ascending {map : List (κ × ν)} (sorted : Ascending Prod.fst map)
    (entry : κ × ν) : Ascending Prod.fst (inserted map entry) :=
  place_ascending (fun old => show old.1 = old.1 from rfl) sorted

/-- Inserting entries keeps a map one. -/
theorem foldl_inserted_ascending (entries : List (κ × ν)) {map : List (κ × ν)}
    (sorted : Ascending Prod.fst map) : Ascending Prod.fst (entries.foldl inserted map) := by
  induction entries generalizing map with
  | nil => exact sorted
  | cons entry entries ih => exact ih (inserted_ascending sorted entry)

/-- What is gathered is a map. -/
theorem gathered_ascending (entries : List (κ × ν)) : Ascending Prod.fst (gathered entries) :=
  foldl_inserted_ascending entries List.Pairwise.nil

variable [Std.LawfulEqOrd κ]

/-- What a map has after an insertion. -/
theorem mem_inserted {map : List (κ × ν)} (sorted : Ascending Prod.fst map) {entry item : κ × ν} :
    item ∈ inserted map entry ↔ item = entry ∨ item ∈ map ∧ item.1 ≠ entry.1 := by
  have merge : inserted map entry = place Prod.fst (fun old => (old.1, entry.2)) entry map := rfl
  have entered : entry ∈ inserted map entry := by
    rcases @place_mem _ κ _ Prod.fst (fun old => (old.1, entry.2)) entry map with
      new | ⟨old, _, equal, merged⟩
    · exact new
    · rw [← Std.LawfulEqOrd.eq_of_compare equal] at merged
      exact merged
  have kept {old : κ × ν} (listed : old ∈ map) (other : old.1 ≠ entry.1) :
      old ∈ inserted map entry := by
    rcases @mem_place_of_mem _ κ _ Prod.fst (fun old => (old.1, entry.2)) entry map old listed with
      kept | ⟨equal, _⟩
    · exact kept
    · exact absurd (Std.LawfulEqOrd.eq_of_compare equal).symm other
  have ascending := inserted_ascending sorted entry
  constructor
  · intro member
    by_cases same : item.1 = entry.1
    · exact .inl (ascending.unique member entered same)
    · rw [merge] at member
      rcases mem_place member with new | old | ⟨old, listed, merged⟩
      · exact .inl new
      · exact .inr ⟨old, same⟩
      · have other : old.1 ≠ entry.1 := fun equal => same (by rw [merged]; exact equal)
        have equal : old = item := ascending.unique (kept listed other) (merge ▸ member) (by rw [merged])
        exact .inr ⟨equal ▸ listed, same⟩
  · rintro (new | ⟨old, other⟩)
    · exact new ▸ entered
    · exact kept old other

/-- What is in a map after some insertions was there before or was inserted. -/
theorem mem_foldl_inserted {entries map : List (κ × ν)} (sorted : Ascending Prod.fst map)
    {item : κ × ν} (member : item ∈ entries.foldl inserted map) : item ∈ map ∨ item ∈ entries := by
  induction entries generalizing map with
  | nil => exact .inl member
  | cons entry entries ih =>
    rcases ih (inserted_ascending sorted entry) member with before | later
    · rcases (mem_inserted sorted).mp before with rfl | ⟨old, _⟩
      · exact .inr List.mem_cons_self
      · exact .inl old
    · exact .inr (List.mem_cons_of_mem _ later)

/-- What is gathered is among the entries. -/
theorem mem_of_mem_gathered {entries : List (κ × ν)} {item : κ × ν} (member : item ∈ gathered entries) :
    item ∈ entries :=
  (mem_foldl_inserted List.Pairwise.nil member).resolve_left List.not_mem_nil

/-- Entries with distinct keys that a map does not have are all in it afterwards. -/
theorem mem_foldl_inserted_iff {entries map : List (κ × ν)} (sorted : Ascending Prod.fst map)
    (distinct : (entries.map Prod.fst).Nodup) (fresh : ∀ old ∈ map, old.1 ∉ entries.map Prod.fst)
    {item : κ × ν} : item ∈ entries.foldl inserted map ↔ item ∈ map ∨ item ∈ entries := by
  induction entries generalizing map with
  | nil => simp
  | cons entry entries ih =>
    obtain ⟨first, others⟩ := List.nodup_cons.mp distinct
    have fresh' : ∀ old ∈ inserted map entry, old.1 ∉ entries.map Prod.fst := by
      intro old listed
      rcases (mem_inserted sorted).mp listed with rfl | ⟨before, _⟩
      · exact first
      · exact fun later => fresh old before (List.mem_cons_of_mem _ later)
    have apart : item ∈ map → item.1 ≠ entry.1 :=
      fun old same => fresh item old (same ▸ List.mem_cons_self)
    rw [List.foldl_cons, ih (inserted_ascending sorted entry) others fresh', mem_inserted sorted,
      List.mem_cons]
    constructor
    · rintro ((rfl | ⟨old, _⟩) | later)
      · exact .inr (.inl rfl)
      · exact .inl old
      · exact .inr (.inr later)
    · rintro (old | rfl | later)
      · exact .inl (.inr ⟨old, apart old⟩)
      · exact .inl (.inl rfl)
      · exact .inr later

/-- Entries with distinct keys are all gathered. -/
theorem mem_gathered {entries : List (κ × ν)} (distinct : (entries.map Prod.fst).Nodup)
    {item : κ × ν} : item ∈ gathered entries ↔ item ∈ entries := by
  rw [gathered, mem_foldl_inserted_iff List.Pairwise.nil distinct (fun _ none => by cases none)]
  simp

omit [Std.LawfulEqOrd κ] in
/-- The keys of a map are distinct. -/
theorem Ascending.keys_nodup {entries : List (κ × ν)} (sorted : Ascending Prod.fst entries) :
    (entries.map Prod.fst).Nodup := by
  apply List.Pairwise.map Prod.fst _ sorted
  intro left right less same
  rw [same, Std.ReflOrd.compare_self] at less
  cases less

/-- Entries with distinct keys are gathered in some order. -/
theorem gathered_perm_self {entries : List (κ × ν)} (distinct : (entries.map Prod.fst).Nodup) :
    (gathered entries).Perm entries := by
  apply (List.perm_ext_iff_of_nodup (.of_map _ (gathered_ascending entries).keys_nodup) (.of_map _ distinct)).mpr
  exact fun item => mem_gathered distinct

/-- A map that is gathered is what it was. -/
theorem gathered_of_ascending {entries : List (κ × ν)} (sorted : Ascending Prod.fst entries) :
    gathered entries = entries := by
  apply (gathered_ascending entries).ext sorted
  exact fun item => mem_gathered sorted.keys_nodup

omit [Std.LawfulEqOrd κ] in
/-- Entries that are inserted are gathered. -/
theorem BTreeMap.foldl_insert_entries (entries : List (κ × ν)) :
    (entries.foldl BTreeMap.insert BTreeMap.empty).entries = gathered entries := by
  have step (map : BTreeMap κ ν) : (entries.foldl BTreeMap.insert map).entries = entries.foldl inserted map.entries := by
    induction entries generalizing map with
    | nil => rfl
    | cons entry rest ih => exact ih (map.insert entry)
  exact step .empty

/-- In what order entries with distinct keys are gathered does not matter. -/
theorem gathered_perm {left right : List (κ × ν)} (perm : left.Perm right)
    (distinct : (left.map Prod.fst).Nodup) : gathered left = gathered right := by
  have distinct' : (right.map Prod.fst).Nodup := (perm.map Prod.fst).nodup_iff.mp distinct
  apply (gathered_ascending left).ext (gathered_ascending right)
  intro item
  rw [mem_gathered distinct, mem_gathered distinct', perm.mem_iff]

end Gathered

end Harmonia.Library
