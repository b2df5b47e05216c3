import Mathlib.Data.List.Basic
import Mathlib.Data.List.Count
import Mathlib.Data.List.Forall2

/-!
# Storage places and windows of memory

A store hands out places one after another and never the same place twice; what is kept in a place can be
changed, or given up. A block of memory is a list of cells, each of which may not have been written yet. A
window of a block is read only when all of its cells were written.
-/

namespace Harmonia.Library

/-- Values in numbered places. -/
structure Places (α : Type) where
  /-- What a place keeps. -/
  cell : Nat → Option α
  /-- The next place to be handed out. -/
  next : Nat
  /-- Places that were not handed out keep nothing. -/
  unused : ∀ place, next ≤ place → cell place = none

namespace Places

variable {α : Type}

/-- Nothing is kept. -/
def empty : Places α := ⟨fun _ => none, 0, fun _ _ => rfl⟩

/-- Keep a value in the next place. -/
def alloc (places : Places α) (value : α) : Places α where
  cell place := if place = places.next then some value else places.cell place
  next := places.next + 1
  unused place behind := by
    rw [if_neg (Nat.ne_of_gt behind)]
    exact places.unused place (Nat.le_of_succ_le behind)

/-- Change what a place keeps. -/
def set (places : Places α) (place : Nat) (value : α) : Places α where
  cell other := if other = place ∧ place < places.next then some value else places.cell other
  next := places.next
  unused other behind := by
    rw [if_neg (by omega)]
    exact places.unused other behind

/-- Give up what a place keeps. -/
def free (places : Places α) (place : Nat) : Places α where
  cell other := if other = place then none else places.cell other
  next := places.next
  unused other behind := by
    by_cases same : other = place
    · rw [if_pos same]
    · rw [if_neg same]
      exact places.unused other behind

variable {places : Places α} {place other : Nat} {value kept : α}

/-- A place that keeps something was handed out. -/
theorem lt_next (keeps : places.cell place = some kept) : place < places.next := by
  apply Nat.lt_of_not_le
  intro behind
  rw [places.unused place behind] at keeps
  cases keeps

/-- The new place keeps the value. -/
@[simp] theorem cell_alloc : (places.alloc value).cell places.next = some value := if_pos rfl

/-- The other places keep what they kept. -/
theorem cell_alloc_ne (apart : other ≠ places.next) : (places.alloc value).cell other = places.cell other :=
  if_neg apart

/-- A place in use keeps what it kept. -/
theorem cell_alloc_some (keeps : places.cell place = some kept) :
    (places.alloc value).cell place = some kept := by
  rw [cell_alloc_ne (Nat.ne_of_lt (lt_next keeps))]
  exact keeps

/-- A place in use is not the next one. -/
theorem ne_next (keeps : places.cell place = some kept) : place ≠ places.next :=
  Nat.ne_of_lt (lt_next keeps)

/-- A place in use that is set keeps the new value. -/
theorem cell_set (keeps : places.cell place = some kept) : (places.set place value).cell place = some value :=
  if_pos ⟨rfl, lt_next keeps⟩

/-- Setting a place leaves the others alone. -/
theorem cell_set_ne (apart : other ≠ place) : (places.set place value).cell other = places.cell other :=
  if_neg (fun both => apart both.1)

/-- A place that is given up keeps nothing. -/
@[simp] theorem cell_free : (places.free place).cell place = none := if_pos rfl

/-- Giving up a place leaves the others alone. -/
theorem cell_free_ne (apart : other ≠ place) : (places.free place).cell other = places.cell other :=
  if_neg apart

end Places

/-! ## Windows -/

section Windows

variable {α : Type}

/-- Memory that was not written. -/
def blank (size : Nat) : List (Option α) := List.replicate size none

/-- Read a window; every cell of it has to be there and written. -/
def load (memory : List (Option α)) (start len : Nat) : Option (List α) :=
  if start + len ≤ memory.length then ((memory.drop start).take len).mapM id else none

/-- Write a window. -/
def store (memory : List (Option α)) (start : Nat) (bytes : List α) : List (Option α) :=
  memory.take start ++ bytes.map some ++ memory.drop (start + bytes.length)

/-- The window that begins here holds this. -/
def Holds (memory : List (Option α)) (start : Nat) (bytes : List α) : Prop :=
  ∀ i value, bytes[i]? = some value → memory[start + i]? = some (some value)

variable {memory : List (Option α)} {start len : Nat} {bytes more : List α}

/-- Blank memory has its size. -/
@[simp] theorem length_blank (size : Nat) : (blank size : List (Option α)).length = size :=
  List.length_replicate

/-- Writing inside memory does not change its size. -/
theorem length_store (inside : start + bytes.length ≤ memory.length) :
    (store memory start bytes).length = memory.length := by
  unfold store
  rw [List.length_append, List.length_append, List.length_take, List.length_map, List.length_drop]
  omega

/-- Every window holds nothing at all. -/
theorem Holds.nil : Holds memory start [] := by
  intro i value found
  cases found

/-- What follows itself in memory is held as one. -/
theorem Holds.append (front : Holds memory start bytes) (back : Holds memory (start + bytes.length) more) :
    Holds memory start (bytes ++ more) := by
  intro i value found
  by_cases before : i < bytes.length
  · rw [List.getElem?_append_left before] at found
    exact front i value found
  · rw [List.getElem?_append_right (Nat.le_of_not_lt before)] at found
    have at_back := back (i - bytes.length) value found
    have same : start + bytes.length + (i - bytes.length) = start + i := by omega
    rw [same] at at_back
    exact at_back

/-- The front of what is held is held. -/
theorem Holds.left (all : Holds memory start (bytes ++ more)) : Holds memory start bytes := by
  intro i value found
  apply all i value
  rw [List.getElem?_append_left (List.getElem?_eq_some_iff.mp found).1]
  exact found

/-- The rest of what is held is held further on. -/
theorem Holds.drop (all : Holds memory start bytes) (count : Nat) :
    Holds memory (start + count) (bytes.drop count) := by
  intro i value found
  rw [List.getElem?_drop] at found
  have there := all (count + i) value found
  rw [← Nat.add_assoc] at there
  exact there

/-- Memory that agrees up to the end of a window holds the same in it. -/
theorem Holds.of_take {after : List (Option α)} {stop : Nat} (all : Holds memory start bytes)
    (agree : after.take stop = memory.take stop) (inside : start + bytes.length ≤ stop) :
    Holds after start bytes := by
  intro i value found
  have bound := (List.getElem?_eq_some_iff.mp found).1
  have before := all i value found
  rw [← List.getElem?_take_of_lt (show start + i < stop by omega)] at before ⊢
  rw [agree]
  exact before

/-- What was written is held. -/
theorem holds_store (inside : start ≤ memory.length) : Holds (store memory start bytes) start bytes := by
  intro i value found
  have bound := (List.getElem?_eq_some_iff.mp found).1
  have front : (memory.take start).length = start := by
    rw [List.length_take]
    omega
  unfold store
  rw [List.append_assoc, List.getElem?_append_right (by omega), front, Nat.add_sub_cancel_left,
    List.getElem?_append_left (by rw [List.length_map]; exact bound), List.getElem?_map, found]
  rfl

/-- Writing behind a window leaves what it holds alone. -/
theorem Holds.store_behind {written : List α} {place : Nat} (all : Holds memory start bytes)
    (behind : start + bytes.length ≤ place) (inside : place ≤ memory.length) :
    Holds (store memory place written) start bytes := by
  apply all.of_take _ behind
  have front : (memory.take place).length = place := by
    rw [List.length_take]
    omega
  unfold store
  rw [List.append_assoc, List.take_left' front]

/-- A window is read as what it holds. -/
theorem Holds.load (all : Holds memory start bytes) (inside : start + bytes.length ≤ memory.length) :
    load memory start bytes.length = some bytes := by
  have window : (memory.drop start).take bytes.length = bytes.map some := by
    apply List.ext_getElem?
    intro i
    by_cases before : i < bytes.length
    · have found := List.getElem?_eq_getElem before
      rw [List.getElem?_take_of_lt before, List.getElem?_drop, all i _ found, List.getElem?_map, found]
      rfl
    · rw [List.getElem?_eq_none, List.getElem?_eq_none]
      · rw [List.length_map]
        omega
      · rw [List.length_take]
        omega
  unfold Library.load
  rw [if_pos inside, window, List.mapM_map]
  exact List.mapM_pure.trans (congrArg some (List.map_id bytes))

end Windows

end Harmonia.Library
