import Mathlib.Data.List.Perm.Basic
import Harmonia.Library.Memory
import Harmonia.Library.Runs
import Harmonia.Io.BytesReader

/-!
# `BufferMut`

`bytes_reader/buffer/buffer_mut.rs` over a heap of reference-counted vectors. A buffer is a window of a
vector that it shares with the snapshots it has handed out; window and snapshots are raw pointers into the
memory of the vector. What is shared is never written again and never moved: whatever is reserved, written,
advanced or dropped, the window is what was written and not yet consumed, and a snapshot is what it was. A
panic, and a step that is undefined behaviour, is `none`.
-/

namespace Harmonia

open Library

/-- A raw pointer into a block of memory. -/
structure Pointer where
  /-- The block. -/
  block : Nat
  /-- How far into it. -/
  offset : Nat
  deriving DecidableEq, Repr

/-- A `Vec<u8>`. -/
structure ByteVec where
  /-- Its memory. -/
  block : Nat
  /-- `len`. -/
  len : Nat
  /-- `capacity`. -/
  capacity : Nat
  deriving DecidableEq, Repr

/-- What an `Arc<Vec<u8>>` points to. -/
structure ArcInner where
  /-- The strong count. -/
  strong : Nat
  /-- The vector. -/
  vec : ByteVec
  deriving DecidableEq, Repr

/-- The blocks of memory and the shared vectors. -/
structure Heap where
  /-- Blocks, in which some bytes may not have been written. -/
  blocks : Places (List (Option UInt8))
  /-- Shared vectors. -/
  arcs : Places ArcInner

/-- How much more memory the allocator gives than was asked for; it may depend on the capacity before. -/
abbrev Slack := Nat → Nat → Nat

/-- `isize::MAX`, which no capacity exceeds. -/
def isizeMax : Nat := 2 ^ 63 - 1

namespace Heap

/-- Nothing was allocated. -/
def empty : Heap := ⟨.empty, .empty⟩

/-- `slice::from_raw_parts`. -/
def read (heap : Heap) (ptr : Pointer) (len : Nat) : Option Bytes :=
  match heap.blocks.cell ptr.block with
  | none => none
  | some memory => load memory ptr.offset len

/-- Write through a raw pointer. -/
def write (heap : Heap) (ptr : Pointer) (bytes : Bytes) : Option Heap :=
  match heap.blocks.cell ptr.block with
  | none => none
  | some memory =>
    if ptr.offset + bytes.length ≤ memory.length then
      some { heap with blocks := heap.blocks.set ptr.block (store memory ptr.offset bytes) }
    else none

/-- `ptr::copy_nonoverlapping`. -/
def copyNonoverlapping (heap : Heap) (src dst : Pointer) (len : Nat) : Option Heap :=
  if src.block = dst.block ∧ src.offset < dst.offset + len ∧ dst.offset < src.offset + len then none
  else
    match heap.read src len with
    | none => none
    | some bytes => heap.write dst bytes

/-- `Vec::with_capacity`. -/
def withCapacity (slack : Slack) (heap : Heap) (capacity : Nat) : Option (ByteVec × Heap) :=
  if isizeMax < capacity then none
  else
    let size := min isizeMax (capacity + slack 0 capacity)
    some (⟨heap.blocks.next, 0, size⟩, { heap with blocks := heap.blocks.alloc (blank size) })

/-- `Vec::reserve`: only the elements of the vector are kept when its memory moves. -/
def vecReserve (slack : Slack) (heap : Heap) (vec : ByteVec) (additional : Nat) : Option (ByteVec × Heap) :=
  if additional ≤ vec.capacity - vec.len then some (vec, heap)
  else if isizeMax < vec.len + additional then none
  else
    match heap.blocks.cell vec.block with
    | none => none
    | some memory =>
      let size := min isizeMax (vec.len + additional + slack vec.capacity (vec.len + additional))
      some ({ vec with block := heap.blocks.next, capacity := size },
        { heap with
          blocks := (heap.blocks.alloc (memory.take vec.len ++ blank (size - vec.len))).free vec.block })

/-- `Vec::extend_from_slice`. -/
def extendFromSlice (slack : Slack) (heap : Heap) (vec : ByteVec) (bytes : Bytes) :
    Option (ByteVec × Heap) :=
  match heap.vecReserve slack vec bytes.length with
  | none => none
  | some (vec, heap) =>
    match heap.write ⟨vec.block, vec.len⟩ bytes with
    | none => none
    | some heap => some ({ vec with len := vec.len + bytes.length }, heap)

/-- `Arc::new`. -/
def arcNew (heap : Heap) (vec : ByteVec) : Nat × Heap :=
  (heap.arcs.next, { heap with arcs := heap.arcs.alloc ⟨1, vec⟩ })

/-- `Arc::clone`. -/
def arcClone (heap : Heap) (data : Nat) : Option Heap :=
  match heap.arcs.cell data with
  | none => none
  | some inner => some { heap with arcs := heap.arcs.set data { inner with strong := inner.strong + 1 } }

/-- The `drop` of an `Arc`: the last one drops the vector. -/
def arcDrop (heap : Heap) (data : Nat) : Option Heap :=
  match heap.arcs.cell data with
  | none => none
  | some inner =>
    if inner.strong ≤ 1 then some ⟨heap.blocks.free inner.vec.block, heap.arcs.free data⟩
    else some { heap with arcs := heap.arcs.set data { inner with strong := inner.strong - 1 } }

end Heap

/-- `Filled`: a snapshot. -/
structure Filled where
  /-- `ptr`. -/
  ptr : Pointer
  /-- `len`. -/
  len : Nat
  /-- `_data`. -/
  data : Nat
  deriving DecidableEq, Repr

/-- `as_slice`. -/
def Filled.asSlice (this : Filled) (heap : Heap) : Option Bytes := heap.read this.ptr this.len

/-- `BufferMut`. -/
structure BufferMut where
  /-- `ptr`. -/
  ptr : Pointer
  /-- `len`. -/
  len : Nat
  /-- `cap`. -/
  cap : Nat
  /-- `data`. -/
  data : Nat
  deriving DecidableEq, Repr

namespace BufferMut

/-- `from_vec`. -/
def fromVec (heap : Heap) (vec : ByteVec) : BufferMut × Heap :=
  let (data, heap) := heap.arcNew vec
  (⟨⟨vec.block, 0⟩, vec.len, vec.capacity, data⟩, heap)

/-- `with_capacity`. -/
def withCapacity (slack : Slack) (heap : Heap) (capacity : Nat) : Option (BufferMut × Heap) :=
  (heap.withCapacity slack capacity).map fun (vec, heap) => fromVec heap vec

/-- `as_slice`. -/
def asSlice (this : BufferMut) (heap : Heap) : Option Bytes := heap.read this.ptr this.len

/-- The window is moved to the front of the vector. -/
def shift (heap : Heap) (this : BufferMut) (v : ByteVec) : Option (BufferMut × Heap) :=
  match heap.copyNonoverlapping this.ptr ⟨v.block, 0⟩ this.len with
  | none => none
  | some heap => some ({ this with ptr := ⟨v.block, 0⟩, cap := v.capacity }, heap)

/-- The vector grows, and the window stays at its offset. The addition is checked, and so is an assertion. -/
def enlarge (slack : Slack) (heap : Heap) (this : BufferMut) (inner : ArcInner) (newCap : Nat) :
    Option (BufferMut × Heap) :=
  let offset := this.ptr.offset
  if 2 ^ 64 ≤ newCap + offset then none
  else
    let double := 2 * inner.vec.capacity % 2 ^ 64
    let newCap := max double (newCap + offset)
    if inner.vec.capacity < offset + this.len then none
    else
      let v := { inner.vec with len := offset + this.len }
      match heap.vecReserve slack v (newCap - v.len) with
      | none => none
      | some (v, heap) =>
        some ({ this with ptr := ⟨v.block, offset⟩, cap := v.capacity - offset },
          { heap with arcs := heap.arcs.set this.data { inner with vec := v } })

/-- The window is copied to a new vector. An assertion is checked. -/
def replace (slack : Slack) (heap : Heap) (this : BufferMut) (inner : ArcInner) (newCap : Nat) :
    Option (BufferMut × Heap) :=
  match heap.withCapacity slack (max newCap inner.vec.capacity) with
  | none => none
  | some (v, heap) =>
    match this.asSlice heap with
    | none => none
    | some bytes =>
      match heap.extendFromSlice slack v bytes with
      | none => none
      | some (v, heap) =>
        let (data, heap) := heap.arcNew v
        match heap.arcDrop this.data with
        | none => none
        | some heap =>
          if this.len ≠ v.len then none else some (⟨⟨v.block, 0⟩, this.len, v.capacity, data⟩, heap)

/-- `reserve_inner`. The addition is checked; the offset is that of a pointer into the vector. -/
def reserveInner (slack : Slack) (heap : Heap) (this : BufferMut) (additional : Nat) (allocate : Bool) :
    Option (Bool × BufferMut × Heap) :=
  if 2 ^ 64 ≤ this.len + additional then if allocate then none else some (false, this, heap)
  else
    let newCap := this.len + additional
    match heap.arcs.cell this.data with
    | none => none
    | some inner =>
      if inner.strong = 1 then
        if this.ptr.block ≠ inner.vec.block then none
        else if newCap ≤ inner.vec.capacity ∧ this.len ≤ this.ptr.offset then
          (shift heap this inner.vec).map (Prod.mk true)
        else if allocate then (enlarge slack heap this inner newCap).map (Prod.mk true)
        else some (false, this, heap)
      else if allocate then (replace slack heap this inner newCap).map (Prod.mk true)
      else some (false, this, heap)

/-- `reserve`. The subtraction is checked. -/
def reserve (slack : Slack) (heap : Heap) (this : BufferMut) (additional : Nat) : Option (BufferMut × Heap) :=
  if this.cap < this.len then none
  else if additional ≤ this.cap - this.len then some (this, heap)
  else (reserveInner slack heap this additional true).map Prod.snd

/-- `filled`. -/
def filled (heap : Heap) (this : BufferMut) : Option (Filled × Heap) :=
  match heap.arcClone this.data with
  | none => none
  | some heap => some (⟨this.ptr, this.len, this.data⟩, heap)

/-- `advance_unchecked`. An assertion is checked. -/
def advanceUnchecked (this : BufferMut) (count : Nat) : Option BufferMut :=
  if count = 0 then some this
  else if this.cap < count then none
  else some { this with
    ptr := ⟨this.ptr.block, this.ptr.offset + count⟩, len := this.len - count, cap := this.cap - count }

/-- `advance`. -/
def advance (this : BufferMut) (cnt : Nat) : Option BufferMut :=
  if this.len < cnt then none else this.advanceUnchecked cnt

/-- Write to the front of what `spare_capacity_mut` gives. -/
def writeSpare (heap : Heap) (this : BufferMut) (bytes : Bytes) : Option Heap :=
  if this.cap < this.len ∨ this.cap - this.len < bytes.length then none
  else heap.write ⟨this.ptr.block, this.ptr.offset + this.len⟩ bytes

/-- `advance_mut`. -/
def advanceMut (this : BufferMut) (cnt : Nat) : Option BufferMut :=
  if this.cap - this.len < cnt then none else some { this with len := this.len + cnt }

/-! ## A buffer and its snapshots -/

/-- What is done to a buffer. -/
inductive Operation where
  /-- `reserve`. -/
  | reserve (additional : Nat)
  /-- Bytes, and more behind them, are written to the spare capacity, and `advance_mut` passes the bytes. -/
  | put (bytes more : Bytes)
  /-- `advance`. -/
  | advance (cnt : Nat)
  /-- `filled`. -/
  | filled
  /-- A snapshot is dropped. -/
  | drop (index : Nat)
  deriving DecidableEq, Repr

/-- A buffer with the snapshots that are alive. -/
structure World where
  /-- The heap. -/
  heap : Heap
  /-- The buffer. -/
  buffer : BufferMut
  /-- The snapshots. -/
  live : List Filled

/-- One operation. -/
def step (slack : Slack) (world : World) : Operation → Option World
  | .reserve additional =>
    match reserve slack world.heap world.buffer additional with
    | none => none
    | some (buffer, heap) => some { world with buffer := buffer, heap := heap }
  | .put bytes more =>
    match writeSpare world.heap world.buffer (bytes ++ more) with
    | none => none
    | some heap =>
      match world.buffer.advanceMut bytes.length with
      | none => none
      | some buffer => some { world with buffer := buffer, heap := heap }
  | .advance cnt =>
    match world.buffer.advance cnt with
    | none => none
    | some buffer => some { world with buffer := buffer }
  | .filled =>
    match filled world.heap world.buffer with
    | none => none
    | some (snapshot, heap) => some { world with heap := heap, live := world.live ++ [snapshot] }
  | .drop index =>
    match world.live[index]? with
    | none => none
    | some snapshot =>
      match world.heap.arcDrop snapshot.data with
      | none => none
      | some heap => some { world with heap := heap, live := world.live.eraseIdx index }

/-- A new buffer. -/
def start (slack : Slack) (capacity : Nat) : Option World :=
  (withCapacity slack .empty capacity).map fun (buffer, heap) => ⟨heap, buffer, []⟩

/-- A queue of bytes with snapshots. -/
structure Queue where
  /-- All that was written. -/
  written : Bytes
  /-- How much of it was consumed. -/
  consumed : Nat
  /-- What was to be seen when a snapshot was made. -/
  snapshots : List Bytes
  deriving DecidableEq, Repr

namespace Queue

/-- What was written and not consumed. -/
def visible (queue : Queue) : Bytes := queue.written.drop queue.consumed

/-- One operation. -/
def step (queue : Queue) : Operation → Queue
  | .reserve _ => queue
  | .put bytes _ => { queue with written := queue.written ++ bytes }
  | .advance cnt => { queue with consumed := queue.consumed + cnt }
  | .filled => { queue with snapshots := queue.snapshots ++ [queue.visible] }
  | .drop index => { queue with snapshots := queue.snapshots.eraseIdx index }

/-- The queue after some operations. -/
def after (operations : List Operation) : Queue := operations.foldl step ⟨[], 0, []⟩

end Queue

end BufferMut

/-! ## What the heap keeps -/

namespace Heap

/-- Every shared vector is counted by its handles and has its own memory. -/
structure Sound (heap : Heap) (handles : List Nat) : Prop where
  /-- The strong count is the number of handles. -/
  counted : ∀ data inner, heap.arcs.cell data = some inner → inner.strong = handles.count data
  /-- The capacity of a vector is the size of its memory. -/
  backed : ∀ data inner, heap.arcs.cell data = some inner →
    ∃ memory, heap.blocks.cell inner.vec.block = some memory ∧ memory.length = inner.vec.capacity
  /-- Two vectors do not have the same memory. -/
  apart : ∀ data other inner inner', heap.arcs.cell data = some inner → heap.arcs.cell other = some inner' →
    inner.vec.block = inner'.vec.block → data = other

/-- The pointer leads to these bytes, in the memory of this vector. -/
structure Shows (heap : Heap) (data : Nat) (ptr : Pointer) (bytes : Bytes) : Prop where
  /-- The vector is alive, and the bytes are in its memory. -/
  there : ∃ inner memory, heap.arcs.cell data = some inner ∧ heap.blocks.cell inner.vec.block = some memory ∧
    ptr.block = inner.vec.block ∧ ptr.offset + bytes.length ≤ memory.length ∧ Holds memory ptr.offset bytes

/-- A vector and its memory stay; only its strong count may change. -/
def Keeps (heap after : Heap) (data : Nat) : Prop :=
  ∀ inner, heap.arcs.cell data = some inner →
    (∃ strong, after.arcs.cell data = some ⟨strong, inner.vec⟩) ∧
      after.blocks.cell inner.vec.block = heap.blocks.cell inner.vec.block

variable {heap after : Heap} {handles : List Nat} {data other : Nat} {ptr : Pointer} {bytes : Bytes}

/-- The pointer leads to the same bytes as long as the vector stays. -/
theorem Shows.keep (shows : heap.Shows data ptr bytes) (keeps : heap.Keeps after data) :
    after.Shows data ptr bytes := by
  obtain ⟨inner, memory, vec, block, same, inside, holds⟩ := shows.there
  obtain ⟨⟨strong, stays⟩, kept⟩ := keeps inner vec
  exact ⟨⟨strong, inner.vec⟩, memory, stays, kept.trans block, same, inside, holds⟩

/-- What a pointer leads to is read. -/
theorem Shows.read (shows : heap.Shows data ptr bytes) : heap.read ptr bytes.length = some bytes := by
  obtain ⟨inner, memory, _, block, same, inside, holds⟩ := shows.there
  unfold Heap.read
  rw [same, block]
  exact holds.load inside

/-- A vector that stays twice stays. -/
theorem Keeps.trans {last : Heap} (first : heap.Keeps after data) (second : after.Keeps last data) :
    heap.Keeps last data := by
  intro inner vec
  obtain ⟨⟨strong, stays⟩, kept⟩ := first inner vec
  obtain ⟨final, still⟩ := second ⟨strong, inner.vec⟩ stays
  exact ⟨final, still.trans kept⟩

/-- One handle is none of another vector. -/
theorem count_singleton_ne (apart : other ≠ data) : [data].count other = 0 := by
  apply List.count_eq_zero_of_not_mem
  intro among
  exact apart (List.mem_singleton.mp among)

/-- Only a strong count is changed, to what it should be. -/
theorem Sound.recount {recounted : List Nat} (sound : heap.Sound handles) {inner : ArcInner} (strong : Nat)
    (vec : heap.arcs.cell data = some inner) (exact' : strong = recounted.count data)
    (others : ∀ other, other ≠ data → recounted.count other = handles.count other) :
    Sound { heap with arcs := heap.arcs.set data { inner with strong := strong } } recounted ∧
      ∀ other, heap.Keeps { heap with arcs := heap.arcs.set data { inner with strong := strong } } other := by
  have cell (other : Nat) : (heap.arcs.set data { inner with strong := strong }).cell other =
      if other = data then some { inner with strong := strong } else heap.arcs.cell other := by
    by_cases same : other = data
    · rw [same, if_pos rfl, Places.cell_set vec]
    · rw [if_neg same, Places.cell_set_ne same]
  -- Every vector is one from before, with its handles.
  have before {other : Nat} {now : ArcInner}
      (found : (heap.arcs.set data { inner with strong := strong }).cell other = some now) :
      ∃ old, heap.arcs.cell other = some old ∧ now.vec = old.vec ∧ now.strong = recounted.count other := by
    rw [cell] at found
    by_cases same : other = data
    · subst same
      rw [if_pos rfl] at found
      cases found
      exact ⟨inner, vec, rfl, exact'⟩
    · rw [if_neg same] at found
      refine ⟨now, found, rfl, ?_⟩
      rw [others other same, sound.counted other now found]
  refine ⟨⟨?_, ?_, ?_⟩, ?_⟩
  · intro other now found
    obtain ⟨_, _, _, counted⟩ := before found
    exact counted
  · intro other now found
    obtain ⟨old, was, same, _⟩ := before found
    rw [same]
    exact sound.backed other old was
  · intro first second one two foundOne foundTwo same
    obtain ⟨oldOne, wasOne, vecOne, _⟩ := before foundOne
    obtain ⟨oldTwo, wasTwo, vecTwo, _⟩ := before foundTwo
    rw [vecOne, vecTwo] at same
    exact sound.apart first second oldOne oldTwo wasOne wasTwo same
  · intro other now found
    refine ⟨?_, rfl⟩
    show ∃ strong, (heap.arcs.set data _).cell other = _
    rw [cell]
    by_cases same : other = data
    · subst same
      rw [vec] at found
      cases found
      exact ⟨strong, if_pos rfl⟩
    · rw [if_neg same]
      exact ⟨now.strong, found⟩

/-- Cloning a handle. -/
theorem Sound.arcClone (sound : heap.Sound handles) {inner : ArcInner} (vec : heap.arcs.cell data = some inner) :
    ∃ after, heap.arcClone data = some after ∧ after.Sound (handles ++ [data]) ∧
      ∀ other, heap.Keeps after other := by
  unfold Heap.arcClone
  rw [vec]
  refine ⟨_, rfl, sound.recount (inner.strong + 1) vec ?_ ?_⟩
  · rw [List.count_append, List.count_singleton_self, sound.counted data inner vec]
  · intro other apart
    rw [List.count_append, count_singleton_ne apart, Nat.add_zero]

/-- Dropping a handle leaves the vectors of the others alone. -/
theorem Sound.arcDrop {left : List Nat} (sound : heap.Sound handles) {inner : ArcInner}
    (vec : heap.arcs.cell data = some inner) (dropped : handles.Perm (data :: left)) :
    ∃ after, heap.arcDrop data = some after ∧ after.Sound left ∧ ∀ other ∈ left, heap.Keeps after other := by
  have counted := sound.counted data inner vec
  rw [dropped.count_eq, List.count_cons_self] at counted
  have others (other : Nat) (apart : other ≠ data) : left.count other = handles.count other := by
    rw [dropped.count_eq, List.count_cons_of_ne (Ne.symm apart)]
  unfold Heap.arcDrop
  rw [vec]
  simp only
  by_cases last : inner.strong ≤ 1
  · -- The vector goes, with its memory.
    rw [if_pos last]
    have gone : data ∉ left := by
      rw [← List.count_eq_zero]
      omega
    have before {other : Nat} {now : ArcInner} (found : (heap.arcs.free data).cell other = some now) :
        other ≠ data ∧ heap.arcs.cell other = some now := by
      have apart : other ≠ data := by
        intro same
        rw [same, Places.cell_free] at found
        cases found
      rw [Places.cell_free_ne apart] at found
      exact ⟨apart, found⟩
    have memory {other : Nat} {now : ArcInner} (apart : other ≠ data) (found : heap.arcs.cell other = some now) :
        (heap.blocks.free inner.vec.block).cell now.vec.block = heap.blocks.cell now.vec.block := by
      apply Places.cell_free_ne
      intro same
      exact apart (sound.apart other data now inner found vec same)
    refine ⟨_, rfl, ⟨?_, ?_, ?_⟩, ?_⟩
    · intro other now found
      obtain ⟨apart, was⟩ := before found
      rw [sound.counted other now was, others other apart]
    · intro other now found
      obtain ⟨apart, was⟩ := before found
      rw [memory apart was]
      exact sound.backed other now was
    · intro first second one two foundOne foundTwo
      exact sound.apart first second one two (before foundOne).2 (before foundTwo).2
    · intro other among now found
      have apart : other ≠ data := by
        intro same
        rw [same] at among
        exact gone among
      exact ⟨⟨now.strong, (Places.cell_free_ne apart).trans found⟩, memory apart found⟩
  · -- There is a handle left.
    rw [if_neg last]
    obtain ⟨recounted, keeps⟩ := sound.recount (inner.strong - 1) vec (by omega) others
    exact ⟨_, rfl, recounted, fun other _ => keeps other⟩

/-- A new vector of memory that no vector has. -/
theorem Sound.arcNew (sound : heap.Sound handles) {vec : ByteVec} {memory : List (Option UInt8)}
    (block : heap.blocks.cell vec.block = some memory) (size : memory.length = vec.capacity)
    (own : ∀ data inner, heap.arcs.cell data = some inner → inner.vec.block ≠ vec.block)
    (unheld : heap.arcs.next ∉ handles) :
    (heap.arcNew vec).2.Sound (handles ++ [(heap.arcNew vec).1]) ∧
      (heap.arcNew vec).2.arcs.cell (heap.arcNew vec).1 = some ⟨1, vec⟩ ∧
      ∀ other, heap.Keeps (heap.arcNew vec).2 other := by
  have before {other : Nat} {now : ArcInner} (found : (heap.arcs.alloc ⟨1, vec⟩).cell other = some now) :
      (other = heap.arcs.next ∧ now = ⟨1, vec⟩) ∨
        other ≠ heap.arcs.next ∧ heap.arcs.cell other = some now := by
    by_cases same : other = heap.arcs.next
    · subst same
      rw [Places.cell_alloc] at found
      cases found
      exact .inl ⟨rfl, rfl⟩
    · rw [Places.cell_alloc_ne same] at found
      exact .inr ⟨same, found⟩
  refine ⟨⟨?_, ?_, ?_⟩, Places.cell_alloc, ?_⟩
  · intro other now found
    rw [List.count_append]
    rcases before found with ⟨same, new⟩ | ⟨apart, was⟩
    · subst same new
      show 1 = _ + [heap.arcs.next].count heap.arcs.next
      rw [List.count_eq_zero_of_not_mem unheld, List.count_singleton_self]
    · show _ = _ + [heap.arcs.next].count other
      rw [sound.counted other now was, count_singleton_ne apart,
        Nat.add_zero]
  · intro other now found
    rcases before found with ⟨_, new⟩ | ⟨_, was⟩
    · rw [new]
      exact ⟨memory, block, size⟩
    · exact sound.backed other now was
  · intro first second one two foundOne foundTwo same
    rcases before foundOne with ⟨isOne, newOne⟩ | ⟨_, wasOne⟩ <;>
      rcases before foundTwo with ⟨isTwo, newTwo⟩ | ⟨_, wasTwo⟩
    · rw [isOne, isTwo]
    · rw [newOne] at same
      exact absurd same.symm (own second two wasTwo)
    · rw [newTwo] at same
      exact absurd same (own first one wasOne)
    · exact sound.apart first second one two wasOne wasTwo same
  · intro other now found
    exact ⟨⟨now.strong, Places.cell_alloc_some found⟩, rfl⟩

/-- Writing into the memory of a vector leaves the others alone, and the bytes in front of what is written. -/
theorem Sound.write (sound : heap.Sound handles) {inner : ArcInner} (vec : heap.arcs.cell data = some inner)
    (same : ptr.block = inner.vec.block) (inside : ptr.offset + bytes.length ≤ inner.vec.capacity) :
    ∃ after, heap.write ptr bytes = some after ∧ after.Sound handles ∧ after.arcs = heap.arcs ∧
      (∀ other, other ≠ data → heap.Keeps after other) ∧ after.Shows data ptr bytes ∧
      ∀ old seen, heap.Shows data old seen → old.offset + seen.length ≤ ptr.offset → after.Shows data old seen := by
  obtain ⟨memory, block, size⟩ := sound.backed data inner vec
  have room : ptr.offset + bytes.length ≤ memory.length := by omega
  have length := length_store room
  have written : (heap.blocks.set inner.vec.block (store memory ptr.offset bytes)).cell inner.vec.block =
      some (store memory ptr.offset bytes) := Places.cell_set block
  unfold Heap.write
  rw [same, block]
  simp only
  rw [if_pos room]
  refine ⟨_, rfl, ⟨sound.counted, ?_, sound.apart⟩, rfl, ?_, ?_, ?_⟩
  · intro other now found
    by_cases own : now.vec.block = inner.vec.block
    · have is : other = data := sound.apart other data now inner found vec own
      subst is
      rw [vec] at found
      cases found
      exact ⟨_, written, length.trans size⟩
    · show ∃ memory, (heap.blocks.set inner.vec.block _).cell now.vec.block = _ ∧ _
      rw [Places.cell_set_ne own]
      exact sound.backed other now found
  · intro other apart now found
    refine ⟨⟨now.strong, found⟩, Places.cell_set_ne ?_⟩
    intro own
    exact apart (sound.apart other data now inner found vec own)
  · exact ⟨inner, _, vec, written, same, by omega, holds_store (by omega)⟩
  · intro old seen shows behind
    obtain ⟨now, before, found, held, leads, _, holds⟩ := shows.there
    rw [vec] at found
    cases found
    rw [block] at held
    cases held
    exact ⟨inner, _, vec, written, leads, by omega, holds.store_behind behind (by omega)⟩

/-- New memory is nobody's. -/
theorem withCapacity_spec (slack : Slack) (sound : heap.Sound handles) (capacity : Nat) :
    (isizeMax < capacity ∧ heap.withCapacity slack capacity = none) ∨
      ∃ vec after memory, heap.withCapacity slack capacity = some (vec, after) ∧ after.Sound handles ∧
        after.arcs = heap.arcs ∧ (∀ other, heap.Keeps after other) ∧ vec.len = 0 ∧ capacity ≤ vec.capacity ∧
        after.blocks.cell vec.block = some memory ∧ memory.length = vec.capacity ∧
        ∀ data inner, heap.arcs.cell data = some inner → inner.vec.block ≠ vec.block := by
  unfold Heap.withCapacity
  by_cases large : isizeMax < capacity
  · exact .inl ⟨large, if_pos large⟩
  · rw [if_neg large]
    have old (data : Nat) (inner : ArcInner) (vec : heap.arcs.cell data = some inner) :
        inner.vec.block ≠ heap.blocks.next := by
      obtain ⟨memory, block, _⟩ := sound.backed data inner vec
      exact Places.ne_next block
    refine .inr ⟨_, _, _, rfl, ⟨sound.counted, ?_, sound.apart⟩, rfl, ?_, rfl, ?_, Places.cell_alloc,
      length_blank _, old⟩
    · intro data inner vec
      obtain ⟨memory, block, size⟩ := sound.backed data inner vec
      exact ⟨memory, Places.cell_alloc_some block, size⟩
    · intro other inner vec
      exact ⟨⟨inner.strong, vec⟩, Places.cell_alloc_ne (old other inner vec)⟩
    · show capacity ≤ min isizeMax _
      omega

/-- Growing a vector keeps its elements, and the other vectors. -/
theorem Sound.vecReserve (slack : Slack) (sound : heap.Sound handles) {inner : ArcInner}
    {memory : List (Option UInt8)} {len additional : Nat} (vec : heap.arcs.cell data = some inner)
    (block : heap.blocks.cell inner.vec.block = some memory) (inside : len ≤ inner.vec.capacity) :
    (isizeMax < len + additional ∧ heap.vecReserve slack { inner.vec with len := len } additional = none) ∨
      ∃ grown blocks kept,
        heap.vecReserve slack { inner.vec with len := len } additional =
          some (grown, { heap with blocks := blocks }) ∧
        len + additional ≤ grown.capacity ∧ blocks.cell grown.block = some kept ∧
        kept.length = grown.capacity ∧ kept.take len = memory.take len ∧
        ∀ other now, other ≠ data → heap.arcs.cell other = some now →
          blocks.cell now.vec.block = heap.blocks.cell now.vec.block ∧ now.vec.block ≠ grown.block := by
  have size : memory.length = inner.vec.capacity := by
    obtain ⟨same, found, size⟩ := sound.backed data inner vec
    rw [block] at found
    cases found
    exact size
  unfold Heap.vecReserve
  simp only
  by_cases enough : additional ≤ inner.vec.capacity - len
  · rw [if_pos enough]
    refine .inr ⟨_, heap.blocks, memory, rfl, ?_, block, size, rfl, ?_⟩
    · show len + additional ≤ inner.vec.capacity
      omega
    · intro other now apart found
      exact ⟨rfl, fun same => apart (sound.apart other data now inner found vec same)⟩
  · rw [if_neg enough]
    by_cases large : isizeMax < len + additional
    · exact .inl ⟨large, if_pos large⟩
    · rw [if_neg large, block]
      have front : (memory.take len).length = len := by
        rw [List.length_take]
        omega
      let size := min isizeMax (len + additional + slack inner.vec.capacity (len + additional))
      refine .inr ⟨_, _, memory.take len ++ blank (size - len), rfl, ?_, ?_, ?_, List.take_left' front, ?_⟩
      · show len + additional ≤ min isizeMax _
        omega
      · exact (Places.cell_free_ne (Places.ne_next block).symm).trans Places.cell_alloc
      · show (memory.take len ++ blank _).length = min isizeMax _
        rw [List.length_append, front, length_blank]
        omega
      · intro other now apart found
        obtain ⟨kept, there, _⟩ := sound.backed other now found
        have elsewhere : now.vec.block ≠ inner.vec.block := fun same =>
          apart (sound.apart other data now inner found vec same)
        refine ⟨?_, Places.ne_next there⟩
        rw [there]
        exact (Places.cell_free_ne elsewhere).trans (Places.cell_alloc_some there)

/-- A vector is given other memory, which nobody else has. -/
theorem Sound.settle (sound : heap.Sound handles) {inner : ArcInner} {grown : ByteVec}
    {blocks : Places (List (Option UInt8))} {kept : List (Option UInt8)}
    (vec : heap.arcs.cell data = some inner) (block : blocks.cell grown.block = some kept)
    (size : kept.length = grown.capacity)
    (others : ∀ other now, other ≠ data → heap.arcs.cell other = some now →
      blocks.cell now.vec.block = heap.blocks.cell now.vec.block ∧ now.vec.block ≠ grown.block) :
    Sound ⟨blocks, heap.arcs.set data { inner with vec := grown }⟩ handles ∧
      (∀ other, other ≠ data → heap.Keeps ⟨blocks, heap.arcs.set data { inner with vec := grown }⟩ other) ∧
      (heap.arcs.set data { inner with vec := grown }).cell data = some { inner with vec := grown } := by
  have settled := @Places.cell_set _ _ _ { inner with vec := grown } _ vec
  have before {other : Nat} {now : ArcInner}
      (found : (heap.arcs.set data { inner with vec := grown }).cell other = some now) :
      (other = data ∧ now = { inner with vec := grown }) ∨ other ≠ data ∧ heap.arcs.cell other = some now := by
    by_cases same : other = data
    · subst same
      rw [settled] at found
      cases found
      exact .inl ⟨rfl, rfl⟩
    · rw [Places.cell_set_ne same] at found
      exact .inr ⟨same, found⟩
  refine ⟨⟨?_, ?_, ?_⟩, ?_, settled⟩
  · intro other now found
    rcases before found with ⟨same, new⟩ | ⟨_, was⟩
    · subst same new
      exact sound.counted other inner vec
    · exact sound.counted other now was
  · intro other now found
    rcases before found with ⟨_, new⟩ | ⟨apart, was⟩
    · rw [new]
      exact ⟨kept, block, size⟩
    · show ∃ memory, blocks.cell now.vec.block = _ ∧ _
      rw [(others other now apart was).1]
      exact sound.backed other now was
  · intro first second one two foundOne foundTwo same
    rcases before foundOne with ⟨isOne, newOne⟩ | ⟨apartOne, wasOne⟩ <;>
      rcases before foundTwo with ⟨isTwo, newTwo⟩ | ⟨apartTwo, wasTwo⟩
    · rw [isOne, isTwo]
    · rw [newOne] at same
      exact absurd same.symm (others second two apartTwo wasTwo).2
    · rw [newTwo] at same
      exact absurd same (others first one apartOne wasOne).2
    · exact sound.apart first second one two wasOne wasTwo same
  · intro other apart now found
    exact ⟨⟨now.strong, (Places.cell_set_ne apart).trans found⟩, (others other now apart found).1⟩

end Heap

namespace BufferMut

/-! ## A buffer is a queue -/

/-- A snapshot still shows its bytes, and what is written to the buffer is written behind them. -/
def Stays (heap : Heap) (buffer : BufferMut) (snapshot : Filled) (bytes : Bytes) : Prop :=
  heap.Shows snapshot.data snapshot.ptr bytes ∧ bytes.length = snapshot.len ∧
    (snapshot.data = buffer.data → snapshot.ptr.offset + snapshot.len ≤ buffer.ptr.offset + buffer.len)

/-- The vectors of the snapshots. -/
def World.owners (world : World) : List Nat := world.live.map Filled.data

/-- The buffer and its snapshots are those of a queue. -/
structure Represents (world : World) (queue : Queue) : Prop where
  /-- The heap counts the buffer and the snapshots. -/
  heap : world.heap.Sound (world.buffer.data :: world.owners)
  /-- The window shows what was written and not consumed. -/
  shows : world.heap.Shows world.buffer.data world.buffer.ptr queue.visible
  /-- It is as long as that. -/
  len : queue.visible.length = world.buffer.len
  /-- It does not exceed the capacity. -/
  room : world.buffer.len ≤ world.buffer.cap
  /-- The capacity reaches to the end of the vector. -/
  whole : ∀ inner, world.heap.arcs.cell world.buffer.data = some inner →
    world.buffer.ptr.offset + world.buffer.cap = inner.vec.capacity
  /-- Only what was written is consumed. -/
  within : queue.consumed ≤ queue.written.length
  /-- The snapshots stay. -/
  snapshots : List.Forall₂ (Stays world.heap world.buffer) world.live queue.snapshots

variable {world : World} {queue : Queue} {heap : Heap} {buffer : BufferMut} {additional : Nat}

/-- An owner is the vector of a snapshot. -/
theorem mem_owners {snapshot : Filled} (among : snapshot ∈ world.live) : snapshot.data ∈ world.owners :=
  List.mem_map.mpr ⟨snapshot, among, rfl⟩

/-- Snapshots stay with a buffer, as long as each of them does. -/
theorem stays_all {live : List Filled} {seen : List Bytes} {before after : Heap} {old new : BufferMut}
    (all : List.Forall₂ (Stays before old) live seen)
    (each : ∀ snapshot ∈ live, ∀ bytes, Stays before old snapshot bytes → Stays after new snapshot bytes) :
    List.Forall₂ (Stays after new) live seen := by
  induction all with
  | nil => exact .nil
  | cons stays _ ih =>
    apply List.Forall₂.cons
    · exact each _ List.mem_cons_self _ stays
    · exact ih (fun snapshot among => each snapshot (List.mem_cons_of_mem _ among))

/-- Snapshots that stay are read. -/
theorem stays_read {live : List Filled} {seen : List Bytes}
    (all : List.Forall₂ (Stays heap buffer) live seen) :
    live.map (Filled.asSlice · heap) = seen.map some := by
  induction all with
  | nil => rfl
  | @cons snapshot bytes live seen stays _ ih =>
    have read := stays.1.read
    rw [stays.2.1] at read
    rw [List.map_cons, List.map_cons, ih]
    exact congrArg (· :: seen.map some) read

/-- A buffer whose window was moved to a vector of its own is that of the same queue. -/
theorem Represents.moved (represents : Represents world queue)
    (sound : heap.Sound (buffer.data :: world.owners)) (own : buffer.data ∉ world.owners)
    (keeps : ∀ data ∈ world.owners, world.heap.Keeps heap data)
    (shows : heap.Shows buffer.data buffer.ptr queue.visible) (len : buffer.len = world.buffer.len)
    (room : buffer.len ≤ buffer.cap)
    (whole : ∀ inner, heap.arcs.cell buffer.data = some inner →
      buffer.ptr.offset + buffer.cap = inner.vec.capacity) :
    Represents { world with buffer := buffer, heap := heap } queue := by
  refine ⟨sound, shows, represents.len.trans len.symm, room, whole, represents.within, ?_⟩
  apply stays_all represents.snapshots
  rintro snapshot among bytes ⟨there, size, _⟩
  refine ⟨there.keep (keeps _ (mem_owners among)), size, ?_⟩
  intro same
  rw [← same] at own
  exact absurd (mem_owners among) own

/-- Whatever has a handle is alive. -/
theorem Represents.held (represents : Represents world queue) {data : Nat}
    (among : data ∈ world.buffer.data :: world.owners) :
    ∃ inner, world.heap.arcs.cell data = some inner := by
  rcases List.mem_cons.mp among with same | among
  · obtain ⟨inner, _, vec, _⟩ := represents.shows.there
    rw [same]
    exact ⟨inner, vec⟩
  · obtain ⟨snapshot, live, same⟩ := List.mem_map.mp among
    obtain ⟨i, inside, is⟩ := List.mem_iff_getElem.mp live
    have stays := represents.snapshots.get inside (represents.snapshots.length_eq ▸ inside)
    obtain ⟨inner, _, vec, _⟩ := stays.1.there
    rw [← same, ← is]
    exact ⟨inner, vec⟩

/-- A vector with one handle is that of the buffer alone. -/
theorem Represents.alone (represents : Represents world queue) {inner : ArcInner}
    (vec : world.heap.arcs.cell world.buffer.data = some inner) (once : inner.strong = 1) :
    world.buffer.data ∉ world.owners := by
  have counted := represents.heap.counted _ _ vec
  rw [once, List.count_cons_self] at counted
  rw [← List.count_eq_zero]
  omega

/-- Moving the window to the front. -/
theorem Represents.shift (represents : Represents world queue) {inner : ArcInner}
    (vec : world.heap.arcs.cell world.buffer.data = some inner) (once : inner.strong = 1)
    (enough : world.buffer.len + additional ≤ inner.vec.capacity)
    (apart : world.buffer.len ≤ world.buffer.ptr.offset) :
    ∃ buffer heap, BufferMut.shift world.heap world.buffer inner.vec = some (buffer, heap) ∧
      Represents { world with buffer := buffer, heap := heap } queue ∧ additional ≤ buffer.cap - buffer.len := by
  have alone := represents.alone vec once
  have read := represents.shows.read
  have len := represents.len
  rw [len] at read
  obtain ⟨heap, wrote, sound, arcs, keeps, shows, _⟩ :=
    @Heap.Sound.write _ _ _ ⟨inner.vec.block, 0⟩ queue.visible represents.heap inner vec rfl (by
      show 0 + queue.visible.length ≤ _
      omega)
  have copied : world.heap.copyNonoverlapping world.buffer.ptr ⟨inner.vec.block, 0⟩ world.buffer.len =
      some heap := by
    have disjoint : ¬ (world.buffer.ptr.block = inner.vec.block ∧
        world.buffer.ptr.offset < 0 + world.buffer.len ∧ 0 < world.buffer.ptr.offset + world.buffer.len) := by
      omega
    unfold Heap.copyNonoverlapping
    rw [if_neg disjoint, read]
    exact wrote
  refine ⟨_, heap, by rw [BufferMut.shift, copied], ?_, ?_⟩
  · apply represents.moved
    · exact sound
    · exact alone
    · intro data among
      apply keeps
      intro same
      rw [same] at among
      exact alone among
    · exact shows
    · rfl
    · show world.buffer.len ≤ inner.vec.capacity
      omega
    · intro now found
      rw [arcs, vec] at found
      cases found
      exact Nat.zero_add _
  · show additional ≤ inner.vec.capacity - world.buffer.len
    omega

/-- What a `reserve` would need is larger than a vector can be. -/
def TooLarge (buffer : BufferMut) (additional : Nat) : Prop :=
  isizeMax < max (2 * (buffer.ptr.offset + buffer.cap)) (buffer.ptr.offset + buffer.len + additional)

/-- Growing the vector around the window. -/
theorem Represents.enlarge (slack : Slack) (represents : Represents world queue) {inner : ArcInner}
    (vec : world.heap.arcs.cell world.buffer.data = some inner) (once : inner.strong = 1) :
    (TooLarge world.buffer additional ∧
        BufferMut.enlarge slack world.heap world.buffer inner (world.buffer.len + additional) = none) ∨
      ∃ buffer heap, BufferMut.enlarge slack world.heap world.buffer inner (world.buffer.len + additional) =
          some (buffer, heap) ∧
        Represents { world with buffer := buffer, heap := heap } queue ∧
        additional ≤ buffer.cap - buffer.len := by
  have alone := represents.alone vec once
  have whole := represents.whole inner vec
  have room := represents.room
  obtain ⟨found, memory, is, block, same, _, holds⟩ := represents.shows.there
  rw [vec] at is
  cases is
  unfold BufferMut.enlarge TooLarge
  simp only
  by_cases wraps : 2 ^ 64 ≤ world.buffer.len + additional + world.buffer.ptr.offset
  · refine .inl ⟨?_, if_pos wraps⟩
    unfold isizeMax
    omega
  · rw [if_neg wraps, if_neg (by omega)]
    generalize target : max (2 * inner.vec.capacity % 2 ^ 64)
      (world.buffer.len + additional + world.buffer.ptr.offset) = newCap
    have more : world.buffer.ptr.offset + world.buffer.len + (newCap -
        (world.buffer.ptr.offset + world.buffer.len)) = newCap := by omega
    rcases @Heap.Sound.vecReserve _ _ _ slack represents.heap inner memory
        (world.buffer.ptr.offset + world.buffer.len)
        (newCap - (world.buffer.ptr.offset + world.buffer.len)) vec block (by omega) with
      ⟨large, grown⟩ | ⟨grown, blocks, kept, reserved, enough, at_grown, size, front, others⟩
    · refine .inl ⟨by omega, ?_⟩
      rw [grown]
    · rw [reserved]
      obtain ⟨sound, keeps, settled⟩ := represents.heap.settle vec at_grown size others
      have inside : world.buffer.ptr.offset + queue.visible.length ≤
          world.buffer.ptr.offset + world.buffer.len := by
        rw [represents.len]
      have len := represents.len
      refine .inr ⟨_, _, rfl, ?_, ?_⟩
      · apply represents.moved
        · exact sound
        · exact alone
        · intro data among
          apply keeps
          intro is
          rw [is] at among
          exact alone among
        · exact ⟨_, kept, settled, at_grown, rfl, by
            show world.buffer.ptr.offset + _ ≤ _
            omega, holds.of_take front inside⟩
        · rfl
        · show world.buffer.len ≤ grown.capacity - world.buffer.ptr.offset
          omega
        · intro now found
          have found := settled.symm.trans found
          cases found
          show world.buffer.ptr.offset + (grown.capacity - world.buffer.ptr.offset) = grown.capacity
          omega
      · show additional ≤ grown.capacity - world.buffer.ptr.offset - world.buffer.len
        omega

/-- Copying the window to a new vector. -/
theorem Represents.replace (slack : Slack) (represents : Represents world queue) {inner : ArcInner}
    (vec : world.heap.arcs.cell world.buffer.data = some inner) :
    (TooLarge world.buffer additional ∧
        BufferMut.replace slack world.heap world.buffer inner (world.buffer.len + additional) = none) ∨
      ∃ buffer heap, BufferMut.replace slack world.heap world.buffer inner (world.buffer.len + additional) =
          some (buffer, heap) ∧
        Represents { world with buffer := buffer, heap := heap } queue ∧
        additional ≤ buffer.cap - buffer.len := by
  have whole := represents.whole inner vec
  have len := represents.len
  unfold BufferMut.replace TooLarge
  rcases Heap.withCapacity_spec slack represents.heap (max (world.buffer.len + additional) inner.vec.capacity)
    with ⟨large, none⟩ | ⟨fresh, first, memory, made, sound, arcs, keeps, empty, enough, block, size, own⟩
  · refine .inl ⟨by omega, ?_⟩
    rw [none]
  · have read := (represents.shows.keep (keeps _)).read
    rw [len] at read
    have held : world.buffer.len ≤ memory.length := by omega
    have spare : queue.visible.length ≤ fresh.capacity - fresh.len := by omega
    -- The bytes are copied to memory that is nobody's yet.
    have inside : 0 + queue.visible.length ≤ memory.length := by omega
    have written := @Places.cell_set _ _ _ (store memory 0 queue.visible) _ block
    have wrote : first.write ⟨fresh.block, fresh.len⟩ queue.visible =
        some { first with blocks := first.blocks.set fresh.block (store memory 0 queue.visible) } := by
      unfold Heap.write
      rw [block, empty]
      exact if_pos inside
    have extended : first.extendFromSlice slack fresh queue.visible =
        some ({ fresh with len := fresh.len + queue.visible.length },
          { first with blocks := first.blocks.set fresh.block (store memory 0 queue.visible) }) := by
      unfold Heap.extendFromSlice Heap.vecReserve
      rw [if_pos spare]
      simp only
      rw [wrote]
    have elsewhere {data : Nat} {now : ArcInner} (found : first.arcs.cell data = some now) :
        now.vec.block ≠ fresh.block := by
      rw [arcs] at found
      exact own data now found
    have soundSecond : Heap.Sound { first with
        blocks := first.blocks.set fresh.block (store memory 0 queue.visible) }
        (world.buffer.data :: world.owners) := by
      refine ⟨sound.counted, ?_, sound.apart⟩
      intro data now found
      show ∃ memory, (first.blocks.set fresh.block _).cell now.vec.block = _ ∧ _
      rw [Places.cell_set_ne (elsewhere found)]
      exact sound.backed data now found
    have keepsSecond (data : Nat) : first.Keeps { first with
        blocks := first.blocks.set fresh.block (store memory 0 queue.visible) } data := by
      intro now found
      exact ⟨⟨now.strong, found⟩, Places.cell_set_ne (elsewhere found)⟩
    have unheld : first.arcs.next ∉ world.buffer.data :: world.owners := by
      intro among
      obtain ⟨now, found⟩ := represents.held among
      rw [← arcs] at found
      exact Places.ne_next found rfl
    obtain ⟨soundThird, vecThird, keepsThird⟩ := @Heap.Sound.arcNew _ _ soundSecond
      { fresh with len := fresh.len + queue.visible.length } (store memory 0 queue.visible) written
      ((length_store inside).trans size) (fun data now found => elsewhere found) unheld
    generalize third : Heap.arcNew _ _ = handed at soundThird vecThird keepsThird
    obtain ⟨data, heap⟩ := handed
    have isNext : data = first.arcs.next := congrArg Prod.fst third.symm
    obtain ⟨⟨strong, old⟩, _⟩ := (keeps _).trans ((keepsSecond _).trans (keepsThird world.buffer.data)) inner vec
    obtain ⟨last, dropped, soundLast, keepsLast⟩ := @Heap.Sound.arcDrop _ _ _ (data :: world.owners) soundThird
      _ old (List.Perm.cons _ (List.perm_append_singleton _ _))
    have shows : heap.Shows data ⟨fresh.block, 0⟩ queue.visible := by
      have blocks : heap.blocks = first.blocks.set fresh.block (store memory 0 queue.visible) :=
        congrArg (fun made => (Prod.snd made).blocks) third.symm
      refine ⟨_, store memory 0 queue.visible, vecThird, ?_, rfl, ?_, holds_store (Nat.zero_le _)⟩
      · rw [blocks]
        exact written
      · rw [length_store inside]
        exact inside
    have result : world.buffer.len = fresh.len + queue.visible.length := by omega
    rw [made]
    simp only
    rw [BufferMut.asSlice, read]
    simp only
    rw [extended]
    simp only
    rw [third]
    simp only
    rw [dropped]
    simp only
    rw [if_neg (by simpa using result)]
    refine .inr ⟨_, _, rfl, ?_, ?_⟩
    · apply represents.moved
      · exact soundLast
      · rw [isNext]
        exact fun among => unheld (List.mem_cons_of_mem _ among)
      · intro owner among
        exact (keeps _).trans ((keepsSecond _).trans ((keepsThird _).trans
          (keepsLast owner (List.mem_cons_of_mem _ among))))
      · exact shows.keep (keepsLast data List.mem_cons_self)
      · rfl
      · show world.buffer.len ≤ fresh.capacity
        omega
      · intro now found
        obtain ⟨⟨strong, still⟩, _⟩ := keepsLast data List.mem_cons_self _ vecThird
        have found := still.symm.trans found
        cases found
        exact Nat.zero_add _
    · show additional ≤ fresh.capacity - world.buffer.len
      omega

/-- `reserve` makes room, unless a vector cannot be that large. -/
theorem Represents.reserve (slack : Slack) (represents : Represents world queue) (additional : Nat) :
    (TooLarge world.buffer additional ∧ BufferMut.reserve slack world.heap world.buffer additional = none) ∨
      ∃ buffer heap, BufferMut.reserve slack world.heap world.buffer additional = some (buffer, heap) ∧
        Represents { world with buffer := buffer, heap := heap } queue ∧
        additional ≤ buffer.cap - buffer.len := by
  have room := represents.room
  obtain ⟨inner, memory, vec, _, same, _⟩ := represents.shows.there
  have whole := represents.whole inner vec
  unfold BufferMut.reserve
  rw [if_neg (Nat.not_lt_of_le room)]
  by_cases enough : additional ≤ world.buffer.cap - world.buffer.len
  · rw [if_pos enough]
    exact .inr ⟨world.buffer, world.heap, rfl, represents, enough⟩
  · rw [if_neg enough]
    unfold BufferMut.reserveInner
    by_cases wraps : 2 ^ 64 ≤ world.buffer.len + additional
    · refine .inl ⟨?_, ?_⟩
      · unfold TooLarge isizeMax
        omega
      · rw [if_pos wraps]
        rfl
    · rw [if_neg wraps, vec]
      simp only
      by_cases once : inner.strong = 1
      · rw [if_pos once, if_neg (not_not.mpr same)]
        by_cases front : world.buffer.len + additional ≤ inner.vec.capacity ∧
            world.buffer.len ≤ world.buffer.ptr.offset
        · obtain ⟨buffer, heap, shifted, moved, more⟩ := represents.shift vec once front.1 front.2
          rw [if_pos front, shifted]
          exact .inr ⟨buffer, heap, rfl, moved, more⟩
        · rw [if_neg front, if_pos trivial]
          rcases represents.enlarge slack vec once with ⟨large, none⟩ | ⟨buffer, heap, grown, moved, more⟩
          · rw [none]
            exact .inl ⟨large, rfl⟩
          · rw [grown]
            exact .inr ⟨buffer, heap, rfl, moved, more⟩
      · rw [if_neg once, if_pos trivial]
        rcases represents.replace slack vec with ⟨large, none⟩ | ⟨buffer, heap, copied, moved, more⟩
        · rw [none]
          exact .inl ⟨large, rfl⟩
        · rw [copied]
          exact .inr ⟨buffer, heap, rfl, moved, more⟩

/-- What is put behind the visible bytes is seen behind them. -/
theorem Queue.visible_put {queue : Queue} (within : queue.consumed ≤ queue.written.length) (bytes more : Bytes) :
    (queue.step (.put bytes more)).visible = queue.visible ++ bytes :=
  List.drop_append_of_le_length within

/-- Bytes are put into the spare capacity, if they fit. -/
theorem Represents.put (slack : Slack) (represents : Represents world queue) (bytes more : Bytes) :
    (world.buffer.cap - world.buffer.len < (bytes ++ more).length ∧
        step slack world (.put bytes more) = none) ∨
      ∃ next, step slack world (.put bytes more) = some next ∧
        Represents next (queue.step (.put bytes more)) := by
  have room := represents.room
  have len := represents.len
  have total : (bytes ++ more).length = bytes.length + more.length := List.length_append
  obtain ⟨inner, memory, vec, _, same, _⟩ := represents.shows.there
  have whole := represents.whole inner vec
  unfold step
  simp only
  unfold writeSpare
  by_cases small : world.buffer.cap - world.buffer.len < (bytes ++ more).length
  · refine .inl ⟨small, ?_⟩
    rw [if_pos (.inr small)]
  · rw [if_neg (by omega)]
    obtain ⟨heap, wrote, sound, arcs, keeps, shows, before⟩ := @Heap.Sound.write _ _ _
      ⟨world.buffer.ptr.block, world.buffer.ptr.offset + world.buffer.len⟩ (bytes ++ more) represents.heap inner
      vec same (by
        show world.buffer.ptr.offset + world.buffer.len + _ ≤ _
        omega)
    have passed : world.buffer.advanceMut bytes.length =
        some { world.buffer with len := world.buffer.len + bytes.length } :=
      if_neg (by omega)
    rw [wrote]
    simp only
    rw [passed]
    have visible := Queue.visible_put represents.within bytes more
    have size : (queue.visible ++ bytes).length = world.buffer.len + bytes.length := by
      rw [List.length_append, len]
    refine .inr ⟨_, rfl, ⟨sound, ?_, ?_, ?_, ?_, ?_, ?_⟩⟩
    · rw [visible]
      have front := before world.buffer.ptr queue.visible represents.shows (by
        show _ ≤ world.buffer.ptr.offset + world.buffer.len
        omega)
      obtain ⟨found, kept, vecOne, blockOne, leads, _, holdsOne⟩ := front.there
      obtain ⟨again, kept', vecTwo, blockTwo, _, inside, holdsTwo⟩ := shows.there
      rw [vecOne] at vecTwo
      cases vecTwo
      rw [blockOne] at blockTwo
      cases blockTwo
      have back : Holds kept (world.buffer.ptr.offset + queue.visible.length) bytes := by
        rw [len]
        exact holdsTwo.left
      refine ⟨found, kept, vecOne, blockOne, leads, ?_, holdsOne.append back⟩
      have inside : world.buffer.ptr.offset + world.buffer.len + (bytes ++ more).length ≤ kept.length := inside
      show world.buffer.ptr.offset + _ ≤ _
      omega
    · rw [visible, size]
    · show world.buffer.len + bytes.length ≤ world.buffer.cap
      omega
    · intro now found
      rw [arcs] at found
      exact represents.whole now found
    · show queue.consumed ≤ (queue.written ++ bytes).length
      have within := represents.within
      rw [List.length_append]
      omega
    · apply stays_all represents.snapshots
      rintro snapshot among seen ⟨there, length, behind⟩
      refine ⟨?_, length, ?_⟩
      · by_cases shared : snapshot.data = world.buffer.data
        · have end' := behind shared
          rw [shared] at there ⊢
          apply before _ _ there
          show _ ≤ world.buffer.ptr.offset + world.buffer.len
          omega
        · exact there.keep (keeps _ shared)
      · intro shared
        have end' := behind shared
        show _ ≤ world.buffer.ptr.offset + (world.buffer.len + bytes.length)
        omega

/-- Visible bytes are consumed. -/
theorem Represents.advance (slack : Slack) (represents : Represents world queue) (cnt : Nat) :
    (world.buffer.len < cnt ∧ step slack world (.advance cnt) = none) ∨
      ∃ next, step slack world (.advance cnt) = some next ∧ Represents next (queue.step (.advance cnt)) := by
  have room := represents.room
  have len := represents.len
  have within := represents.within
  have rest : queue.visible.length = queue.written.length - queue.consumed := List.length_drop
  unfold step
  simp only
  unfold BufferMut.advance
  by_cases beyond : world.buffer.len < cnt
  · refine .inl ⟨beyond, ?_⟩
    rw [if_pos beyond]
  · rw [if_neg beyond]
    have visible : (queue.step (.advance cnt)).visible = queue.visible.drop cnt :=
      List.drop_drop.symm
    -- Passing no bytes leaves the buffer as it was.
    have passed : world.buffer.advanceUnchecked cnt =
        some { world.buffer with
          ptr := ⟨world.buffer.ptr.block, world.buffer.ptr.offset + cnt⟩
          len := world.buffer.len - cnt
          cap := world.buffer.cap - cnt } := by
      unfold advanceUnchecked
      by_cases nothing : cnt = 0
      · rw [if_pos nothing, nothing]
        rfl
      · rw [if_neg nothing, if_neg (by omega)]
    rw [passed]
    refine .inr ⟨_, rfl, ⟨represents.heap, ?_, ?_, ?_, ?_, ?_, ?_⟩⟩
    · rw [visible]
      obtain ⟨inner, memory, vec, block, same, inside, holds⟩ := represents.shows.there
      refine ⟨inner, memory, vec, block, same, ?_, holds.drop cnt⟩
      show world.buffer.ptr.offset + cnt + _ ≤ _
      rw [List.length_drop]
      omega
    · rw [visible, List.length_drop, len]
    · show world.buffer.len - cnt ≤ world.buffer.cap - cnt
      omega
    · intro now found
      have whole := represents.whole now found
      show world.buffer.ptr.offset + cnt + (world.buffer.cap - cnt) = _
      omega
    · show queue.consumed + cnt ≤ queue.written.length
      omega
    · apply stays_all represents.snapshots
      rintro snapshot among seen ⟨there, length, behind⟩
      refine ⟨there, length, ?_⟩
      intro shared
      have end' := behind shared
      show _ ≤ world.buffer.ptr.offset + cnt + (world.buffer.len - cnt)
      omega

/-- A snapshot is made. -/
theorem Represents.filled (slack : Slack) (represents : Represents world queue) :
    ∃ next, step slack world .filled = some next ∧ Represents next (queue.step .filled) := by
  obtain ⟨inner, _, vec, _⟩ := represents.shows.there
  obtain ⟨heap, cloned, sound, keeps⟩ := represents.heap.arcClone vec
  have made : BufferMut.filled world.heap world.buffer =
      some (⟨world.buffer.ptr, world.buffer.len, world.buffer.data⟩, heap) := by
    unfold BufferMut.filled
    rw [cloned]
  unfold step
  simp only
  rw [made]
  refine ⟨_, rfl, ⟨?_, represents.shows.keep (keeps _), represents.len, represents.room, ?_, represents.within,
    ?_⟩⟩
  · rw [World.owners, List.map_append]
    exact sound
  · intro now found
    obtain ⟨⟨strong, stays⟩, _⟩ := keeps _ inner vec
    have found := stays.symm.trans found
    cases found
    exact represents.whole inner vec
  · apply List.rel_append
    · apply stays_all represents.snapshots
      rintro snapshot among seen ⟨there, length, behind⟩
      exact ⟨there.keep (keeps _), length, behind⟩
    · exact .cons ⟨represents.shows.keep (keeps _), represents.len, fun _ => Nat.le_refl _⟩ .nil

/-- A snapshot is dropped. -/
theorem Represents.drop (slack : Slack) (represents : Represents world queue) (index : Nat) :
    (world.live.length ≤ index ∧ step slack world (.drop index) = none) ∨
      ∃ next, step slack world (.drop index) = some next ∧ Represents next (queue.step (.drop index)) := by
  unfold step
  simp only
  by_cases beyond : world.live.length ≤ index
  · refine .inl ⟨beyond, ?_⟩
    rw [List.getElem?_eq_none beyond]
  · have inside : index < world.live.length := Nat.lt_of_not_le beyond
    have there := List.getElem?_eq_getElem inside
    have among : world.live[index] ∈ world.live := List.getElem_mem inside
    obtain ⟨inner, vec⟩ := represents.held (List.mem_cons_of_mem _ (mem_owners among))
    have split : (world.buffer.data :: world.owners).Perm
        (world.live[index].data :: world.buffer.data :: (world.live.eraseIdx index).map Filled.data) := by
      apply List.Perm.trans _ (List.Perm.swap _ _ _)
      apply List.Perm.cons
      exact ((List.getElem_cons_eraseIdx_perm inside).symm).map Filled.data
    obtain ⟨heap, dropped, sound, keeps⟩ := represents.heap.arcDrop vec split
    rw [there]
    simp only
    rw [dropped]
    refine .inr ⟨_, rfl, ⟨sound, represents.shows.keep (keeps _ List.mem_cons_self), represents.len,
      represents.room, ?_, represents.within, ?_⟩⟩
    · intro now found
      obtain ⟨own, _, mine, _⟩ := represents.shows.there
      obtain ⟨⟨strong, stays⟩, _⟩ := keeps _ List.mem_cons_self own mine
      have found := stays.symm.trans found
      cases found
      exact represents.whole own mine
    · have left := List.rel_append (List.forall₂_take index represents.snapshots)
        (List.forall₂_drop (index + 1) represents.snapshots)
      dsimp only at left
      rw [← List.eraseIdx_eq_take_drop_succ, ← List.eraseIdx_eq_take_drop_succ] at left
      apply stays_all left
      rintro snapshot left seen ⟨shows, length, behind⟩
      exact ⟨shows.keep (keeps _ (List.mem_cons_of_mem _ (List.mem_map.mpr ⟨snapshot, left, rfl⟩))), length,
        behind⟩

/-- The operation goes beyond what there is. -/
def Exceeds (world : World) : Operation → Prop
  | .reserve additional => TooLarge world.buffer additional
  | .put bytes more => world.buffer.cap - world.buffer.len < (bytes ++ more).length
  | .advance cnt => world.buffer.len < cnt
  | .filled => False
  | .drop index => world.live.length ≤ index

instance (world : World) (operation : Operation) : Decidable (Exceeds world operation) :=
  match operation with
  | .reserve _ => inferInstanceAs (Decidable (_ < _))
  | .put _ _ => inferInstanceAs (Decidable (_ < _))
  | .advance _ => inferInstanceAs (Decidable (_ < _))
  | .filled => inferInstanceAs (Decidable False)
  | .drop _ => inferInstanceAs (Decidable (_ ≤ _))

/-- A step keeps the queue, and only one that exceeds what there is does not return. -/
theorem Represents.step (slack : Slack) (represents : Represents world queue) (operation : Operation) :
    (Exceeds world operation ∧ BufferMut.step slack world operation = none) ∨
      ∃ next, BufferMut.step slack world operation = some next ∧ Represents next (queue.step operation) := by
  cases operation with
  | reserve additional =>
    rcases represents.reserve slack additional with ⟨large, none⟩ | ⟨buffer, heap, reserved, moved, _⟩
    · refine .inl ⟨large, ?_⟩
      unfold BufferMut.step
      simp only
      rw [none]
    · refine .inr ⟨_, ?_, moved⟩
      unfold BufferMut.step
      simp only
      rw [reserved]
  | put bytes more => exact represents.put slack bytes more
  | advance cnt => exact represents.advance slack cnt
  | filled => exact .inr (represents.filled slack)
  | drop index => exact represents.drop slack index

/-- A run keeps the queue. -/
theorem Represents.run (slack : Slack) (operations : List Operation) (represents : Represents world queue)
    {last : World} (ran : run (BufferMut.step slack) world operations = some last) :
    Represents last (operations.foldl Queue.step queue) := by
  induction operations generalizing world queue with
  | nil =>
    cases ran
    exact represents
  | cons operation operations ih =>
    obtain ⟨next, stepped, rest⟩ := run_cons_some ran
    rcases represents.step slack operation with ⟨_, none⟩ | ⟨after, taken, kept⟩
    · rw [none] at stepped
      cases stepped
    · rw [taken] at stepped
      cases stepped
      exact ih kept rest

/-- A new buffer is an empty queue. -/
theorem start_represents {slack : Slack} {capacity : Nat} (started : start slack capacity = some world) :
    Represents world ⟨[], 0, []⟩ := by
  have none : Heap.Sound .empty [] := by
    refine ⟨?_, ?_, ?_⟩
    · rintro data inner ⟨⟩
    · rintro data inner ⟨⟩
    · rintro data other inner inner' ⟨⟩
  unfold start BufferMut.withCapacity at started
  rcases Heap.withCapacity_spec slack none capacity with
    ⟨_, failed⟩ | ⟨vec, heap, memory, made, sound, arcs, _, empty, _, block, size, own⟩
  · rw [failed] at started
    cases started
  · rw [made] at started
    cases started
    obtain ⟨counted, is, _⟩ := sound.arcNew block size (by rw [arcs]; exact own) List.not_mem_nil
    refine ⟨counted, ⟨_, memory, is, block, rfl, ?_, Holds.nil⟩, ?_, ?_, ?_, Nat.le_refl _, .nil⟩
    · exact Nat.zero_le _
    · exact empty.symm
    · show vec.len ≤ vec.capacity
      omega
    · intro inner found
      have found := is.symm.trans found
      cases found
      exact Nat.zero_add _

/-- Whatever is done to a buffer and its snapshots, the window is what was written less what was consumed,
within the capacity, and every snapshot is what was to be seen when it was made; a `reserve` makes the room
it was asked for; and an operation returns if it stays within what there is. -/
theorem buffer_is_queue (slack : Slack) {capacity : Nat} {operations : List Operation} {first world : World}
    (started : start slack capacity = some first)
    (ran : run (step slack) first operations = some world) :
    let queue := Queue.after operations
    world.buffer.asSlice world.heap = some queue.visible ∧
      world.buffer.len = queue.visible.length ∧ world.buffer.len ≤ world.buffer.cap ∧
      world.live.map (Filled.asSlice · world.heap) = queue.snapshots.map some ∧
      (∀ additional next, step slack world (.reserve additional) = some next →
        additional ≤ next.buffer.cap - next.buffer.len) ∧
      ∀ operation, ¬ Exceeds world operation → ∃ next, step slack world operation = some next := by
  have represents : Represents world (Queue.after operations) := (start_represents started).run slack operations ran
  refine ⟨?_, represents.len.symm, represents.room, ?_, ?_, ?_⟩
  · have read := represents.shows.read
    rw [represents.len] at read
    exact read
  · exact stays_read represents.snapshots
  · intro additional next stepped
    rcases represents.reserve slack additional with ⟨_, none⟩ | ⟨buffer, heap, reserved, _, more⟩
    · unfold step at stepped
      simp only at stepped
      rw [none] at stepped
      cases stepped
    · unfold step at stepped
      simp only at stepped
      rw [reserved] at stepped
      cases stepped
      exact more
  · intro operation inside
    rcases represents.step slack operation with ⟨exceeds, _⟩ | ⟨next, taken, _⟩
    · exact absurd exceeds inside
    · exact ⟨next, taken⟩

/-! ## The reader's buffer -/

/-- A vector that grows without slack has the capacity that is needed. -/
theorem vecReserve_exact {vec grown : ByteVec} {heap after : Heap}
    (reserved : heap.vecReserve (fun _ _ => 0) vec additional = some (grown, after)) :
    grown.capacity = max vec.capacity (if additional ≤ vec.capacity - vec.len then 0 else vec.len + additional) := by
  unfold Heap.vecReserve at reserved
  by_cases enough : additional ≤ vec.capacity - vec.len
  · rw [if_pos enough] at reserved ⊢
    cases reserved
    exact (Nat.max_zero _).symm
  · rw [if_neg enough] at reserved ⊢
    by_cases large : isizeMax < vec.len + additional
    · rw [if_pos large] at reserved
      cases reserved
    · rw [if_neg large] at reserved
      cases there : heap.blocks.cell vec.block with
      | none =>
        rw [there] at reserved
        cases reserved
      | some memory =>
        rw [there] at reserved
        cases reserved
        show min isizeMax (vec.len + additional + 0) = _
        omega

/-- A shifted window starts at the front and reaches to the end. -/
theorem shift_exact {v : ByteVec} {before : Heap} (shifted : shift before world.buffer v = some (buffer, heap)) :
    buffer.ptr.offset = 0 ∧ buffer.cap = v.capacity := by
  unfold shift at shifted
  cases copied : before.copyNonoverlapping world.buffer.ptr ⟨v.block, 0⟩ world.buffer.len with
  | none =>
    rw [copied] at shifted
    cases shifted
  | some after =>
    rw [copied] at shifted
    cases shifted
    exact ⟨rfl, rfl⟩

/-- An enlarged vector has twice its capacity, or what is needed. -/
theorem enlarge_exact {inner : ArcInner} {before : Heap} {newCap : Nat} (small : inner.vec.capacity ≤ isizeMax)
    (more : world.buffer.len ≤ newCap)
    (grown : enlarge (fun _ _ => 0) before world.buffer inner newCap = some (buffer, heap)) :
    buffer.ptr.offset = world.buffer.ptr.offset ∧
      buffer.ptr.offset + buffer.cap = max (2 * inner.vec.capacity) (newCap + world.buffer.ptr.offset) := by
  unfold enlarge at grown
  simp only at grown
  by_cases wraps : 2 ^ 64 ≤ newCap + world.buffer.ptr.offset
  · rw [if_pos wraps] at grown
    cases grown
  · rw [if_neg wraps] at grown
    by_cases beyond : inner.vec.capacity < world.buffer.ptr.offset + world.buffer.len
    · rw [if_pos beyond] at grown
      cases grown
    · have double : 2 * inner.vec.capacity % 2 ^ 64 = 2 * inner.vec.capacity := by
        apply Nat.mod_eq_of_lt
        unfold isizeMax at small
        omega
      rw [if_neg beyond, double] at grown
      cases reserved : before.vecReserve (fun _ _ => 0)
          { inner.vec with len := world.buffer.ptr.offset + world.buffer.len }
          (max (2 * inner.vec.capacity) (newCap + world.buffer.ptr.offset) -
            (world.buffer.ptr.offset + world.buffer.len)) with
      | none =>
        rw [reserved] at grown
        cases grown
      | some both =>
        obtain ⟨vec, after⟩ := both
        have capacity := vecReserve_exact reserved
        simp only at capacity
        rw [reserved] at grown
        cases grown
        refine ⟨rfl, ?_⟩
        show world.buffer.ptr.offset + (vec.capacity - world.buffer.ptr.offset) = _
        rw [capacity]
        split
        · omega
        · omega

/-- A copied window starts at the front of a vector that is as large as is needed, and no smaller than the
old one. -/
theorem replace_exact {inner : ArcInner} {newCap : Nat} (represents : Represents world queue)
    (more : world.buffer.len ≤ newCap)
    (copied : BufferMut.replace (fun _ _ => 0) world.heap world.buffer inner newCap = some (buffer, heap)) :
    buffer.ptr.offset = 0 ∧ buffer.cap = max newCap inner.vec.capacity := by
  unfold BufferMut.replace at copied
  rcases Heap.withCapacity_spec (fun _ _ => 0) represents.heap (max newCap inner.vec.capacity) with
    ⟨_, none⟩ | ⟨fresh, first, _, made, _, _, keeps, empty, _⟩
  · rw [none] at copied
    cases copied
  · have read := (represents.shows.keep (keeps _)).read
    have exactly : fresh.capacity = max newCap inner.vec.capacity := by
      unfold Heap.withCapacity at made
      by_cases large : isizeMax < max newCap inner.vec.capacity
      · rw [if_pos large] at made
        cases made
      · rw [if_neg large] at made
        cases made
        show min isizeMax (max newCap inner.vec.capacity + 0) = _
        omega
    have len := represents.len
    rw [len] at read
    rw [made] at copied
    simp only at copied
    rw [BufferMut.asSlice, read] at copied
    simp only at copied
    unfold Heap.extendFromSlice Heap.vecReserve at copied
    rw [if_pos (by omega)] at copied
    simp only at copied
    cases wrote : first.write ⟨fresh.block, fresh.len⟩ queue.visible with
    | none =>
      rw [wrote] at copied
      cases copied
    | some second =>
      rw [wrote] at copied
      simp only at copied
      unfold Heap.arcNew at copied
      simp only at copied
      cases dropped : Heap.arcDrop { second with
          arcs := second.arcs.alloc ⟨1, { fresh with len := fresh.len + queue.visible.length }⟩ }
          world.buffer.data with
      | none =>
        rw [dropped] at copied
        cases copied
      | some last =>
        rw [dropped] at copied
        simp only at copied
        by_cases apart : world.buffer.len ≠ fresh.len + queue.visible.length
        · rw [if_pos apart] at copied
          cases copied
        · rw [if_neg apart] at copied
          cases copied
          exact ⟨rfl, exactly⟩

/-- Without slack a buffer grows as a `BytesReader` has it: its window starts there and its vector is that
large. -/
theorem grow_of_reserve {reader : BytesReader} {inner : ArcInner} (represents : Represents world queue)
    (vec : world.heap.arcs.cell world.buffer.data = some inner) (small : inner.vec.capacity ≤ isizeMax)
    (shows : reader.buffer = queue.visible) (starts : reader.offset = world.buffer.ptr.offset)
    (allocated : reader.allocated = inner.vec.capacity) (shared : reader.shared = decide (inner.strong ≠ 1))
    (reserved : BufferMut.reserve (fun _ _ => 0) world.heap world.buffer additional = some (buffer, heap)) :
    (reader.grow additional).offset = buffer.ptr.offset ∧
      (reader.grow additional).allocated = buffer.ptr.offset + buffer.cap := by
  have room := represents.room
  have whole := represents.whole inner vec
  have len : reader.buffer.length = world.buffer.len := by rw [shows, represents.len]
  have spare : reader.remainingMut = world.buffer.cap - world.buffer.len := by
    unfold BytesReader.remainingMut BytesReader.capacity
    omega
  unfold BufferMut.reserve at reserved
  unfold BytesReader.grow
  simp only
  rw [if_neg (Nat.not_lt_of_le room)] at reserved
  rw [spare, len, shared, starts, allocated]
  by_cases enough : additional ≤ world.buffer.cap - world.buffer.len
  · rw [if_pos enough] at reserved ⊢
    cases reserved
    exact ⟨starts, allocated.trans whole.symm⟩
  · rw [if_neg enough] at reserved ⊢
    unfold BufferMut.reserveInner at reserved
    by_cases wraps : 2 ^ 64 ≤ world.buffer.len + additional
    · rw [if_pos wraps] at reserved
      cases reserved
    · rw [if_neg wraps, vec] at reserved
      simp only at reserved
      by_cases once : inner.strong = 1
      · have alone : decide (inner.strong ≠ 1) = false := decide_eq_false (not_not.mpr once)
        rw [if_pos once] at reserved
        rw [alone, if_neg Bool.false_ne_true]
        by_cases apart : world.buffer.ptr.block ≠ inner.vec.block
        · rw [if_pos apart] at reserved
          cases reserved
        · rw [if_neg apart] at reserved
          by_cases front : world.buffer.len + additional ≤ inner.vec.capacity ∧
              world.buffer.len ≤ world.buffer.ptr.offset
          · rw [if_pos front] at reserved ⊢
            obtain ⟨⟨_, both⟩, shifted, same⟩ := Option.map_eq_some_iff.mp reserved
            obtain ⟨result, shifted, made⟩ := Option.map_eq_some_iff.mp shifted
            cases made
            cases same
            obtain ⟨offset, cap⟩ := shift_exact shifted
            rw [offset, cap]
            exact ⟨rfl, (Nat.zero_add _).symm⟩
          · rw [if_neg front, if_pos trivial] at reserved
            rw [if_neg front]
            obtain ⟨⟨_, both⟩, grown, same⟩ := Option.map_eq_some_iff.mp reserved
            obtain ⟨result, grown, made⟩ := Option.map_eq_some_iff.mp grown
            cases made
            cases same
            obtain ⟨offset, reach⟩ := enlarge_exact small (Nat.le_add_right _ _) grown
            exact ⟨offset.symm, reach.symm⟩
      · have held : decide (inner.strong ≠ 1) = true := decide_eq_true once
        rw [if_neg once, if_pos trivial] at reserved
        rw [held, if_pos rfl]
        obtain ⟨⟨_, both⟩, copied, same⟩ := Option.map_eq_some_iff.mp reserved
        obtain ⟨result, copied, made⟩ := Option.map_eq_some_iff.mp copied
        cases made
        cases same
        obtain ⟨offset, cap⟩ := replace_exact represents (Nat.le_add_right _ _) copied
        rw [offset, cap]
        exact ⟨rfl, (Nat.zero_add _).symm⟩

/-- The window of the sample is copied, enlarged and shifted while snapshots come and go. -/
def sampleOperations : List Operation :=
  [.put [1, 2, 3, 4] [], .filled, .reserve 2, .put [5, 6] [9], .filled, .advance 5, .drop 1, .reserve 8,
    .put [7] [], .filled, .drop 1, .reserve 10, .reserve 20, .advance 1, .put [8] []]

/-- The sample leaves two bytes and the first snapshot. -/
theorem buffer_is_queue_sample :
    ∃ first world, start (fun _ _ => 1) 4 = some first ∧
      run (step fun _ _ => 1) first sampleOperations = some world ∧
      world.buffer.asSlice world.heap = some [7, 8] ∧
      world.live.map (Filled.asSlice · world.heap) = [some [1, 2, 3, 4]] := by
  have runs : ((start (fun _ _ => 1) 4).bind fun first =>
      run (step fun _ _ => 1) first sampleOperations).isSome = true := by decide
  obtain ⟨world, both⟩ := Option.isSome_iff_exists.mp runs
  obtain ⟨first, started, ran⟩ := Option.bind_eq_some_iff.mp both
  have all := buffer_is_queue (fun _ _ => 1) started ran
  exact ⟨first, world, started, ran, all.1, all.2.2.2.1⟩

end BufferMut

end Harmonia
