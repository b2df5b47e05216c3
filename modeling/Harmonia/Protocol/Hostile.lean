import Harmonia.Protocol.Chunked
import Harmonia.Protocol.RoundTrip

/-!
# Hostile bytes

Every number a deserialiser reads may be chosen by an attacker. Lengths of strings are checked
against a limit; the count of a vector is passed on to the allocator. The parser of a derived path
calls itself once for each separator of the text, on a stack of some size.
-/

namespace Harmonia.Protocol

open Library Store

namespace NixReader

/-- The counts of vectors that are reached in the input are no larger than the number of bytes
after them, and an allocation for so many items is possible; and the stack has room for the calls that
every text reached in it asks for. -/
def Measured {α : Type} (stack : Nat) (ctx : Ctx) : Read α → Bytes → Prop
  | .done _, _ => True
  | .fail _, _ => True
  | .number next, input =>
    match Read.tryReadNumber input with
    | .ok value rest => Measured stack ctx (next value) rest
    | .error _ | .panic => True
  | .bytes next, input =>
    match Read.tryReadBytes ctx input with
    | .ok value rest => Measured stack ctx (next value) rest
    | .error _ | .panic => True
  | .reserve count size next, input =>
    (count ≤ input.length ∧ count * size < 2 ^ 63) ∧ Measured stack ctx next input
  | .nested depth next, input => depth ≤ stack ∧ Measured stack ctx next input

instance decidableMeasured {α : Type} (stack : Nat) (ctx : Ctx) :
    (read : Read α) → (input : Bytes) → Decidable (Measured stack ctx read input)
  | .done _, _ => .isTrue trivial
  | .fail _, _ => .isTrue trivial
  | .number next, input =>
    match found : Read.tryReadNumber input with
    | .ok value rest =>
      have := decidableMeasured stack ctx (next value) rest
      decidable_of_iff (Measured stack ctx (next value) rest) (by rw [Measured, found])
    | .error _ => .isTrue (by rw [Measured, found]; trivial)
    | .panic => .isTrue (by rw [Measured, found]; trivial)
  | .bytes next, input =>
    match found : Read.tryReadBytes ctx input with
    | .ok value rest =>
      have := decidableMeasured stack ctx (next value) rest
      decidable_of_iff (Measured stack ctx (next value) rest) (by rw [Measured, found])
    | .error _ => .isTrue (by rw [Measured, found]; trivial)
    | .panic => .isTrue (by rw [Measured, found]; trivial)
  | .reserve count size next, input =>
    have := decidableMeasured stack ctx next input
    inferInstanceAs (Decidable
      ((count ≤ input.length ∧ count * size < 2 ^ 63) ∧ Measured stack ctx next input))
  | .nested depth next, input =>
    have := decidableMeasured stack ctx next input
    inferInstanceAs (Decidable (depth ≤ stack ∧ Measured stack ctx next input))

/-- Room that is within what a string may need, or for no more items than bytes were received. -/
def Modest (limit received : Nat) : Room → Prop
  | .buffer bytes => bytes ≤ limit + 7
  | .items count _ => count ≤ received

/-- Reading a word takes bytes off the input. -/
theorem tryReadNumber_shrinks {input rest : Bytes} {value : Option UInt64}
    (read : Read.tryReadNumber input = .ok value rest) : rest.length ≤ input.length := by
  unfold Read.tryReadNumber at read
  repeat' split at read
  all_goals cases read
  · exact Nat.zero_le _
  · rw [List.length_drop]
    omega

/-- Reading a string takes bytes off the input. -/
theorem tryReadBytes_shrinks {ctx : Ctx} {input rest : Bytes} {contents : Option ByteString}
    (read : Read.tryReadBytes ctx input = .ok contents rest) : rest.length ≤ input.length := by
  unfold Read.tryReadBytes at read
  split at read
  case h_1 rawLen between announced =>
    have shorter := tryReadNumber_shrinks announced
    unfold Read.readContents at read
    simp only at read
    repeat' split at read
    all_goals cases read
    · exact shorter
    · rw [List.length_drop]
      omega
  case h_2 between announced =>
    cases read
    exact tryReadNumber_shrinks announced
  case h_3 => cases read
  case h_4 => cases read

variable {R : Type} [AsyncBytesRead R] [LawfulBytesRead R]

/-- How a deserialiser comes out on bytes that are measured. -/
structure Tamed {α : Type} (reader : NixReader R) (result : Poll α × NixReader R) : Prop where
  /-- It comes out with a value or an error. -/
  answers : result.1 ≠ .panic ∧ result.1 ≠ .pending
  /-- The rooms it asked for are modest. -/
  modest : ∃ rooms, result.2.requested = reader.requested ++ rooms ∧
    ∀ room ∈ rooms, Modest reader.maxBufSize (view.unread reader.inner).length room

/-- How it comes out after one more step. -/
theorem Tamed.after {α : Type} {input : Bytes} {reader next : NixReader R}
    {result : Poll α × NixReader R} (keeps : Keeps input reader next)
    (fewer : (view.unread next.inner).length ≤ (view.unread reader.inner).length)
    (tamed : Tamed next result) : Tamed reader result := by
  obtain ⟨left, wroteLeft, boundLeft⟩ := keeps.asked
  obtain ⟨right, wroteRight, boundRight⟩ := tamed.modest
  refine ⟨tamed.answers, left.map Room.buffer ++ right, ?_, ?_⟩
  · rw [wroteRight, wroteLeft, List.append_assoc]
  · intro room member
    rcases List.mem_append.mp member with before | after
    · obtain ⟨bytes, listed, rfl⟩ := List.mem_map.mp before
      exact boundLeft bytes listed
    · have bound := boundRight room after
      rw [keeps.same] at bound
      cases room with
      | buffer bytes => exact bound
      | items count size => exact Nat.le_trans bound fewer

/-- An error is an answer. -/
theorem Tamed.of_error {α : Type} {input : Bytes} {reader next : NixReader R} {error : IoError}
    (keeps : Keeps input reader next) : Tamed reader ((.error error, next) : Poll α × NixReader R) := by
  obtain ⟨rooms, wrote, bound⟩ := keeps.asked
  refine ⟨⟨nofun, nofun⟩, rooms.map Room.buffer, wrote, ?_⟩
  intro room member
  obtain ⟨bytes, listed, rfl⟩ := List.mem_map.mp member
  exact bound bytes listed

variable [AsyncPrepare R] [LawfulPrepare R]

/-- A deserialiser of any bytes in any chunks, from a source that may fail, comes out with a value
or an error and asks for modest rooms, if the bytes are measured. -/
theorem runOn_tamed {α : Type} {stack : Nat} {ctx : Ctx} {patience : Nat} {read : Read α} {reader : NixReader R}
    (valid : view.Valid reader.inner) (patient : budget reader.inner < patience)
    (limits : ctx.maxBufSize = reader.maxBufSize)
    (measured : Measured stack ctx read (view.unread reader.inner)) :
    Tamed reader (runOn (some stack) patience read reader) := by
  induction read generalizing reader with
  | done value =>
    exact ⟨⟨nofun, nofun⟩, [], (List.append_nil _).symm, List.forall_mem_nil _⟩
  | fail error =>
    exact ⟨⟨nofun, nofun⟩, [], (List.append_nil _).symm, List.forall_mem_nil _⟩
  | reserve count size next ih =>
    obtain ⟨⟨few, fits⟩, later⟩ := measured
    rw [runOn, if_neg (Nat.not_le.mpr fits)]
    obtain ⟨answers, rooms, wrote, bound⟩ :=
      @ih { reader with requested := reader.requested ++ [.items count size] } valid patient limits later
    refine ⟨answers, .items count size :: rooms, ?_, ?_⟩
    · rw [wrote, List.append_assoc]
      rfl
    · intro room member
      rcases List.mem_cons.mp member with rfl | listed
      · exact few
      · exact bound room listed
  | nested depth next ih =>
    have roomy : ¬ (some stack).any (fun room => room < depth) = true := by
      simpa using measured.1
    rw [runOn, if_neg roomy]
    exact ih valid patient limits measured.2
  | number next ih =>
    have awaited := tryReadNumber_awaited valid patient
    rw [Measured] at measured
    rw [runOn]
    generalize reader.tryReadNumber patience = result at awaited
    cases awaited with
    | @ready between answer keeps found =>
      rw [found] at measured
      have spent := keeps.spent
      exact .after keeps (tryReadNumber_shrinks found)
        (ih answer keeps.valid (by omega) (limits.trans keeps.same.symm) measured)
    | error keeps why => exact .of_error keeps
  | bytes next ih =>
    have awaited := tryReadBytes_awaited valid limits patient
    rw [Measured] at measured
    rw [runOn]
    generalize reader.tryReadBytes patience = result at awaited
    cases awaited with
    | @ready between answer keeps found =>
      rw [found] at measured
      have spent := keeps.spent
      have later := ih answer keeps.valid (by omega) (limits.trans keeps.same.symm) measured
      have tamed := later.after keeps (tryReadBytes_shrinks found)
      cases answer with
      | none => exact tamed
      | some contents =>
        show Tamed reader (dite _ _ _)
        rw [dif_pos contents.small]
        exact tamed
    | error keeps why => exact .of_error keeps

/-- `try_read_value` of any type, from a `BytesReader` that reads any bytes in any chunks and on a stack of any
size, comes out with a value, with none or with an error, and asks for modest rooms, if the bytes are
measured. -/
theorem tryReadValue_tamed {α : Type} [NixDeserialize α] {stack : Nat} {ctx : Ctx} {patience : Nat}
    {reader : NixReader BytesReader} (sound : reader.inner.Sound)
    (patient : budget reader.inner < patience) (limits : ctx.maxBufSize = reader.maxBufSize)
    (measured : Measured stack ctx (tryDeserialize ctx : Read (Option α)) (view.unread reader.inner)) :
    Tamed reader (runOn (some stack) patience (tryDeserialize ctx : Read (Option α)) reader) :=
  runOn_tamed sound patient limits measured

section Samples

attribute [local instance] Store.standard Digest.unasked Layout.least

/-- A fresh reader of a connection on which some bytes arrive one by one. -/
def trickle (stream : Bytes) : NixReader BytesReader :=
  ⟨.build BytesReader.defaultReservedBufSize BytesReader.defaultMaxBufSize true ⟨stream, [.pending], 0⟩,
    BytesReader.defaultMaxBufSize, defaultMaxBufSize_small, [], []⟩

/-- A request that asks what is missing of a store path and of two outputs of a derivation. -/
def twoPaths : Bytes :=
  toLeBytes 40 ++ toLeBytes 2 ++
    putNixSlice (asciiBytes "/nix/store/00000000000000000000000000000000-x") ++
    putNixSlice (asciiBytes "/nix/store/00000000000000000000000000000000-y.drv!a!out,dev")

/-- The request about two paths is read without harm on a stack that has room for two calls of the parser. -/
theorem tryReadValue_twoPaths :
    Tamed (trickle twoPaths)
      (runOn (some 2) 256 (tryDeserialize .standard : Read (Option Request)) (trickle twoPaths)) := by
  have sound : (trickle twoPaths).inner.Sound := BytesReader.build_sound (by decide) _ _ _
  have limits : Ctx.standard.maxBufSize = BytesReader.defaultMaxBufSize := rfl
  exact tryReadValue_tamed sound (by decide +kernel) limits (by decide +kernel)

/-- Whether a poll panicked. -/
def panicked {α : Type} : Poll α → Bool
  | .panic => true
  | _ => false

/-- Only a panic is one. -/
theorem eq_panic {α : Type} {answer : Poll α} (panics : panicked answer = true) : answer = .panic := by
  cases answer with
  | panic => rfl
  | ready _ | pending | error _ => cases panics

/-- On a stack with room for one call the same request aborts. -/
example : panicked (runOn (some 1) 256 (tryDeserialize .standard : Read (Option Request))
    (trickle twoPaths)).1 = true := by
  decide +kernel

/-- A request that asks what is missing of more paths than fit into memory. -/
theorem tryReadValue_manyPaths :
    ¬ ∀ (stream : Bytes) (patience : Nat), budget (trickle stream).inner < patience →
      Tamed (trickle stream)
        (run patience (tryDeserialize .standard : Read (Option Request)) (trickle stream)) := by
  intro every
  have tamed := every (toLeBytes 40 ++ toLeBytes (2 ^ 61)) 32 (by decide)
  have panics : panicked (run 32 (tryDeserialize .standard : Read (Option Request))
      (trickle (toLeBytes 40 ++ toLeBytes (2 ^ 61)))).1 = true := by decide +kernel
  exact tamed.answers.1 (eq_panic panics)

end Samples

end NixReader

end Harmonia.Protocol
