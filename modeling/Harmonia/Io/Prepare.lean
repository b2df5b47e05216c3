import Harmonia.Io.BytesReader

/-!
# Making room

`prepare` of the buffered readers. `BytesReader` grows its buffer for what was announced, unless
that would be too much, and asks nobody. It may double the buffer, and a buffer that has become
larger than its limit in this way is refused at the next occasion.
-/

namespace Harmonia

/-- The part of `AsyncBytesRead` that makes room. -/
class AsyncPrepare (R : Type) where
  /-- `prepare`; the flag says whether slices of the buffer are held elsewhere. -/
  prepare : R → Bool → Nat → R

export AsyncPrepare (prepare)

/-- A reader for which making room changes nothing that can be seen. -/
class LawfulPrepare (R : Type) [AsyncBytesRead R] [LawfulBytesRead R] [AsyncPrepare R] : Prop where
  /-- What is kept. -/
  keeps : ∀ {reader : R} (held : Bool) (additional : Nat), view.Valid reader →
    view.Kept reader (prepare reader held additional)
  /-- What is seen. -/
  shows : ∀ (reader : R) (held : Bool) (additional : Nat),
    view.visible (prepare reader held additional) = view.visible reader
  /-- Room for half of what the buffer may hold does no harm. -/
  regular : ∀ {reader : R} (held : Bool) {additional : Nat}, view.Valid reader →
    2 * additional ≤ view.limit reader → view.Regular reader →
    view.Regular (prepare reader held additional)

namespace BytesReader

/-- `prepare` of a reader whose slices are held elsewhere or not. Lengths up to `2^63` make it panic only where
the allocation would be too large (`prepareBuf_none`); an allocation that fails is not followed. -/
def prepared (reader : BytesReader) (held : Bool) (additional : Nat) : BytesReader :=
  match prepareBuf { reader with shared := held } additional with
  | some next => { next with shared := reader.shared }
  | none => reader

instance : AsyncPrepare BytesReader := ⟨prepared⟩

section Generic

variable {S : Type}

/-- What `prepare` can do. -/
inductive Prepares (reader : BytesReader S) (additional : Nat) : Option (BytesReader S) → Prop
  | panic : Prepares reader additional none
  | same : Prepares reader additional (some reader)
  | grown (more : reader.buffer.length + reader.buffer.length < additional)
    (fits : reader.capacity + additional < reader.maxBufSize) :
    Prepares reader additional
      (some (reader.grow (additional - (reader.buffer.length + reader.buffer.length))))

/-- `prepare` panics, grows the buffer or leaves it. -/
theorem prepareBuf_prepares (reader : BytesReader S) (additional : Nat) :
    Prepares reader additional (reader.prepareBuf additional) := by
  unfold prepareBuf
  dsimp only
  split
  · exact .same
  · rename_i more
    split
    · exact .panic
    · split
      · rename_i fits
        split
        · exact .panic
        · exact .grown (Nat.not_le.mp more) fits
      · exact .same

/-- Growing changes the allocation and where the window starts in it. -/
theorem grow_eq (reader : BytesReader S) (additional : Nat) :
    ∃ offset allocated, reader.grow additional =
      { reader with offset := offset, allocated := allocated } ∧
        (offset = reader.offset ∨ offset = 0) ∧ reader.allocated ≤ allocated ∧
        (reader.offset + reader.buffer.length ≤ reader.allocated →
          offset + reader.buffer.length ≤ allocated) := by
  unfold grow
  simp only
  split
  · exact ⟨reader.offset, reader.allocated, rfl, .inl rfl, Nat.le_refl _, id⟩
  · split
    · exact ⟨0, _, rfl, .inr rfl, Nat.le_max_right _ _, fun _ => by omega⟩
    · split
      · exact ⟨0, reader.allocated, rfl, .inr rfl, Nat.le_refl _, fun _ => by omega⟩
      · exact ⟨reader.offset, _, rfl, .inl rfl, by omega, fun _ => by omega⟩

/-- Growing leaves the filled part alone. -/
theorem grow_buffer (reader : BytesReader S) (additional : Nat) :
    (reader.grow additional).buffer = reader.buffer := by
  obtain ⟨offset, allocated, grown, -⟩ := grow_eq reader additional
  rw [grown]

/-- Growing leaves the source alone. -/
theorem grow_inner (reader : BytesReader S) (additional : Nat) :
    (reader.grow additional).inner = reader.inner := by
  obtain ⟨offset, allocated, grown, -⟩ := grow_eq reader additional
  rw [grown]

/-- Growing for an announced length at most doubles it. -/
theorem grow_allocated {reader : BytesReader S}
    (window : reader.offset + reader.buffer.length ≤ reader.allocated) {additional : Nat}
    (more : reader.buffer.length + reader.buffer.length < additional) :
    (reader.grow (additional - (reader.buffer.length + reader.buffer.length))).allocated ≤
      max reader.allocated (2 * additional) := by
  have space : reader.remainingMut = reader.allocated - reader.offset - reader.buffer.length := rfl
  unfold grow
  simp only
  split
  · omega
  · split
    · show max _ _ ≤ _
      omega
    · split
      · show reader.allocated ≤ _
        omega
      · show max _ _ ≤ _
        omega

/-- A buffer that can exist panics for a length up to `2^63` only where the allocation would be too large. -/
theorem prepareBuf_none {reader : BytesReader S} {additional : Nat} (small : reader.allocated < 2 ^ 63)
    (short : additional ≤ 2 ^ 63) (panics : reader.prepareBuf additional = none) :
    2 ^ 63 ≤ (reader.grow (additional - (reader.buffer.length + reader.buffer.length))).allocated := by
  have space : reader.capacity = reader.allocated - reader.offset := rfl
  have fits : ¬ 2 ^ 64 ≤ reader.capacity + additional := by omega
  unfold prepareBuf at panics
  dsimp only at panics
  rw [if_neg fits] at panics
  split at panics
  · cases panics
  · split at panics
    · split at panics
      · rename_i large
        exact large
      · cases panics
    · cases panics

end Generic

/-- `prepare` changes the allocation and where the window starts in it, and at most doubles what was
announced. -/
theorem prepared_eq (reader : BytesReader) (held : Bool) (additional : Nat) :
    ∃ offset allocated, reader.prepared held additional =
      { reader with offset := offset, allocated := allocated } ∧ reader.allocated ≤ allocated ∧
        (reader.offset + reader.buffer.length ≤ reader.allocated →
          offset + reader.buffer.length ≤ allocated ∧
            allocated ≤ max reader.allocated (2 * additional)) := by
  have still : reader.offset + reader.buffer.length ≤ reader.allocated →
      reader.offset + reader.buffer.length ≤ reader.allocated ∧
        reader.allocated ≤ max reader.allocated (2 * additional) :=
    fun window => ⟨window, Nat.le_max_left _ _⟩
  unfold prepared
  have prepares := prepareBuf_prepares { reader with shared := held } additional
  generalize prepareBuf { reader with shared := held } additional = result at prepares
  cases prepares with
  | panic => exact ⟨reader.offset, reader.allocated, rfl, Nat.le_refl _, still⟩
  | same => exact ⟨reader.offset, reader.allocated, rfl, Nat.le_refl _, still⟩
  | grown more fits =>
    have bound := @grow_allocated _ { reader with shared := held }
    obtain ⟨offset, allocated, grown, -, larger, window⟩ :=
      grow_eq { reader with shared := held } (additional - (reader.buffer.length + reader.buffer.length))
    refine ⟨offset, allocated, by rw [grown], larger, fun inside => ⟨window inside, ?_⟩⟩
    have most := bound inside more
    rw [grown] at most
    exact most

instance : LawfulPrepare BytesReader where
  keeps := by
    intro reader held additional sound
    change bytesView.Kept reader (prepared reader held additional)
    obtain ⟨offset, allocated, same, larger, inside⟩ := prepared_eq reader held additional
    rw [same]
    exact ⟨⟨sound.reserve, (inside sound.window).1, Nat.le_trans sound.allocation larger⟩, rfl,
      Nat.le_refl _, rfl, Nat.le_refl _⟩
  shows := by
    intro reader held additional
    change (prepared reader held additional).buffer = reader.buffer
    obtain ⟨offset, allocated, same, -⟩ := prepared_eq reader held additional
    rw [same]
  regular := by
    intro reader held additional sound half regular
    change 2 * additional ≤ reader.maxBufSize - reader.reservedBufSize at half
    change bytesView.Regular (prepared reader held additional)
    obtain ⟨offset, allocated, same, -, inside⟩ := prepared_eq reader held additional
    obtain ⟨steady, within, shared⟩ := regular
    have most := (inside sound.window).2
    rw [same]
    refine ⟨steady, ?_, shared⟩
    change allocated ≤ reader.maxBufSize
    omega

end BytesReader

end Harmonia
