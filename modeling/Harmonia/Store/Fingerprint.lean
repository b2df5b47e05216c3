import Harmonia.Library.Sha2
import Harmonia.Store.Derivation

/-!
# Fingerprints of content addresses

`store_path/create.rs` beside Nix's own definition of a content-addressed path. The text that is
hashed for a fixed output ends with a colon in Nix, and without it here. Everything else is the
same, so the ending is the one thing a fingerprint is parameterised over.
-/

namespace Harmonia.Store

open Library

/-- Hexadecimal writing loses nothing. -/
theorem lowerHex_injective : Function.Injective lowerHex := by
  intro left right same
  have read := Standard.hexDecode_lowerHex left
  rw [same, Standard.hexDecode_lowerHex right] at read
  exact (Option.some.inj read).symm

/-- SHA-256 itself. -/
@[reducible] def Digest.standard : Digest := ⟨fun message => ⟨Sha2.sha256 message, Sha2.sha256_length message⟩⟩

/-- The digest of three letters. -/
example : (Digest.standard.sha256 (asciiBytes "abc")).bytes.take 4 = [0xba, 0x78, 0x16, 0xbf] := by
  decide +kernel

/-- One pass over a hash part adds a byte to each of its bytes, and the bytes behind the last stay. -/
theorem foldl_foldByte (turn : Nat) (items done digest : Bytes) (room : items.length ≤ digest.length)
    (size : done.length + digest.length = 20) :
    (items.zipIdx (20 * turn + done.length)).foldl foldByte (done ++ digest) =
      done ++ List.zipWith (· ^^^ ·) digest (items ++ List.replicate (digest.length - items.length) 0) := by
  induction items generalizing done digest with
  | nil =>
    have kept : List.zipWith (· ^^^ ·) digest (List.replicate digest.length 0) = digest := by
      apply List.ext_getElem (by simp)
      intro index _ _
      simp
    simp only [List.zipIdx_nil, List.foldl_nil, List.nil_append, List.length_nil, Nat.sub_zero, kept]
  | cons item rest ih =>
    cases digest with
    | nil => cases room
    | cons byte digest =>
      simp only [List.length_cons] at room size
      have place : (20 * turn + done.length) % 20 = done.length := by omega
      have folded : foldByte (done ++ byte :: digest) (item, 20 * turn + done.length) =
          (done ++ [byte ^^^ item]) ++ digest := by
        rw [foldByte, place, List.modify_eq_set_getElem?]
        simp
      have later := ih (done ++ [byte ^^^ item]) digest (by omega)
        (by rw [List.length_append, List.length_singleton]; omega)
      rw [List.length_append, List.length_singleton, ← Nat.add_assoc] at later
      rw [List.zipIdx_cons, List.foldl_cons, folded, later, List.append_assoc, List.length_cons,
        List.length_cons, Nat.add_sub_add_right]
      rfl

/-- Each byte of a hash part is the sum of the digest's bytes that are twenty apart. -/
theorem StorePathHash.newFromHash_bytes (hash : Sha256) :
    (newFromHash hash).bytes =
      List.zipWith (· ^^^ ·) (hash.bytes.take 20) (hash.bytes.drop 20 ++ List.replicate 8 0) := by
  have size : hash.bytes.length = 32 := hash.size
  have first : (hash.bytes.take 20).length = 20 := by rw [List.length_take, size]; rfl
  have second : (hash.bytes.drop 20).length = 12 := by rw [List.length_drop, size]
  have once := foldl_foldByte 0 (hash.bytes.take 20) [] (List.replicate 20 0)
    (by rw [first, List.length_replicate]) (by rw [List.length_replicate]; rfl)
  have twice := foldl_foldByte 1 (hash.bytes.drop 20) [] (hash.bytes.take 20)
    (by rw [first, second]; decide) (by rw [first]; rfl)
  have plain : List.zipWith (· ^^^ ·) (List.replicate 20 0) (hash.bytes.take 20) = hash.bytes.take 20 := by
    apply List.ext_getElem (by rw [List.length_zipWith, first, List.length_replicate]; rfl)
    intro index _ _
    rw [List.getElem_zipWith, List.getElem_replicate]
    exact UInt8.zero_xor
  rw [first, second] at twice
  rw [first, List.length_replicate, Nat.sub_self, List.replicate_zero, List.append_nil, plain] at once
  calc hash.bytes.zipIdx.foldl foldByte (List.replicate 20 0)
    _ = (hash.bytes.take 20 ++ hash.bytes.drop 20).zipIdx.foldl foldByte (List.replicate 20 0) := by
      rw [List.take_append_drop]
    _ = ((hash.bytes.drop 20).zipIdx 20).foldl foldByte
        ((hash.bytes.take 20).zipIdx.foldl foldByte (List.replicate 20 0)) := by
      rw [List.zipIdx_append, List.foldl_append, first]
    _ = ((hash.bytes.drop 20).zipIdx 20).foldl foldByte (hash.bytes.take 20) :=
      congrArg (List.foldl foldByte · _) once
    _ = _ := twice

/-- What is hashed for a fixed output, with what it ends with. -/
def fixedOutput (ending : Bytes) (recursive : Bool) (hash : Hash) : Bytes :=
  asciiBytes "fixed:out:" ++ (if recursive then asciiBytes "r:" else []) ++ hash.algorithm.display ++
    58 :: lowerHex hash.bytes ++ ending

/-- The texts of fixed outputs that are hashed for a content address. -/
def fixedOutputs (ending : Bytes) : ContentAddress → List Bytes
  | .text _ => []
  | .recursive hash => if hash.algorithm = .sha256 then [] else [fixedOutput ending true hash]
  | .flat hash => [fixedOutput ending false hash]

section Fingerprints

variable [Digest]

/-- What a fingerprint starts with. -/
def kindOf (ending : Bytes) : ContentAddress → Bytes
  | .text digest => asciiBytes "text:sha256:" ++ lowerHex digest.bytes
  | .recursive hash =>
    if hash.algorithm = .sha256 then asciiBytes "source:sha256:" ++ lowerHex hash.bytes
    else asciiBytes "output:out:sha256:" ++ lowerHex (Digest.sha256 (fixedOutput ending true hash)).bytes
  | .flat hash =>
    asciiBytes "output:out:sha256:" ++ lowerHex (Digest.sha256 (fixedOutput ending false hash)).bytes

/-- The text that is hashed for a name and a content address. -/
def fingerprintOf (ending : Bytes) (dir : StoreDir) (name : StorePathName) (ca : ContentAddress) :
    Bytes :=
  kindOf ending ca ++ 58 :: dir.text.bytes ++ 58 :: name.bytes

/-- Nix's fingerprint. -/
def nixFingerprint : StoreDir → StorePathName → ContentAddress → Bytes := fingerprintOf [58]

/-- `Fingerprint`, as it is displayed. -/
def fingerprint [DataEncoding] (dir : StoreDir) (name : StorePathName) (ca : ContentAddress) : Bytes :=
  (PathType.ofContentAddress ca).display dir ++ 58 :: dir.text.bytes ++ 58 :: name.bytes

omit [Digest] in
/-- A hash that is not a SHA-256 is not made one. -/
theorem Sha256.tryFrom_none {hash : Hash} (other : hash.algorithm ≠ .sha256) :
    Sha256.tryFrom hash = none := if_pos other

omit [Digest] in
/-- A SHA-256 is taken as it is. -/
theorem Sha256.tryFrom_some {hash : Hash} (same : hash.algorithm = .sha256) :
    ∃ digest, Sha256.tryFrom hash = some digest ∧ digest.bytes = hash.bytes := by
  have size : hash.bytes.length = Algorithm.sha256.size := same ▸ hash.size
  refine ⟨⟨hash.bytes, size⟩, ?_, rfl⟩
  rw [tryFrom, fromSlice, if_neg (by simp [same]), dif_pos size]

/-- The path type of a content address is written without an ending. -/
theorem PathType.display_ofContentAddress [DataEncoding] (dir : StoreDir) (ca : ContentAddress) :
    (PathType.ofContentAddress ca).display dir = kindOf [] ca := by
  cases ca with
  | text digest => rfl
  | flat hash =>
    show asciiBytes "output:out:sha256:" ++ lowerHex (Digest.sha256 _).bytes = _
    rw [kindOf, fixedOutput, if_neg (by decide), List.append_nil, List.append_nil, List.append_assoc]
    rfl
  | recursive hash =>
    by_cases same : hash.algorithm = .sha256
    · obtain ⟨digest, made, bytes⟩ := Sha256.tryFrom_some same
      rw [ofContentAddress, made, kindOf, if_pos same, ← bytes]
      rfl
    · rw [ofContentAddress, Sha256.tryFrom_none same, kindOf, if_neg same, fixedOutput, if_pos rfl,
        List.append_nil, List.append_assoc]
      rfl

/-- The fingerprint here is Nix's but for the ending. -/
theorem fingerprint_eq [DataEncoding] (dir : StoreDir) (name : StorePathName) (ca : ContentAddress) :
    fingerprint dir name ca = fingerprintOf [] dir name ca := by
  rw [fingerprint, PathType.display_ofContentAddress]
  rfl

/-- A fingerprint names its kind and its name. -/
theorem fingerprintOf_inj {left right : Bytes} {dir : StoreDir} {name1 name2 : StorePathName}
    {ca1 ca2 : ContentAddress}
    (same : fingerprintOf left dir name1 ca1 = fingerprintOf right dir name2 ca2) :
    kindOf left ca1 = kindOf right ca2 ∧ name1 = name2 := by
  -- No name holds the colon that stands before it.
  have free (name : StorePathName) : 58 ∉ name.bytes := by
    intro member
    exact (isNameByte_cases (name.name.symbols 58 member)).2.2.2.2.1 rfl
  have split := congrArg (rsplitOnce 58) same
  rw [fingerprintOf, fingerprintOf, rsplitOnce_append _ (free name1), rsplitOnce_append _ (free name2)] at split
  have parts := Prod.mk.inj (Option.some.inj split)
  constructor
  · exact List.append_cancel_right parts.1
  · cases name1
    cases name2
    cases parts.2
    rfl

omit [Digest] in
/-- A hash is known by its algorithm and its digits. -/
theorem hash_ext {hash1 hash2 : Hash} (algorithm : hash1.algorithm = hash2.algorithm)
    (digits : lowerHex hash1.bytes = lowerHex hash2.bytes) : hash1 = hash2 := by
  cases hash1
  cases hash2
  cases algorithm
  cases lowerHex_injective digits
  rfl

omit [Digest] in
/-- The text of a fixed output names its method and its hash. -/
theorem fixedOutput_inj {ending : Bytes} {recursive1 recursive2 : Bool} {hash1 hash2 : Hash}
    (same : fixedOutput ending recursive1 hash1 = fixedOutput ending recursive2 hash2) :
    recursive1 = recursive2 ∧ hash1 = hash2 := by
  have digested := List.append_cancel_right same
  simp only [List.append_assoc] at digested
  have method := List.append_cancel_left digested
  -- No algorithm's name starts with the `r` of the recursive method.
  have plain (hash : Hash) (rest : Bytes) : (hash.algorithm.display ++ rest).head? ≠ some 114 := by
    cases hash.algorithm <;> exact nofun
  have hashes (rest : hash1.algorithm.display ++ 58 :: lowerHex hash1.bytes =
      hash2.algorithm.display ++ 58 :: lowerHex hash2.bytes) : hash1 = hash2 := by
    have split := congrArg (splitOnce 58) rest
    rw [splitOnce_append (Algorithm.display_colon _), splitOnce_append (Algorithm.display_colon _)] at split
    have parts := Prod.mk.inj (Option.some.inj split)
    have algorithm := congrArg Algorithm.fromStr parts.1
    rw [Algorithm.fromStr_display, Algorithm.fromStr_display] at algorithm
    exact hash_ext (Option.some.inj algorithm) parts.2
  cases recursive1 <;> cases recursive2
  · exact ⟨rfl, hashes method⟩
  · exact absurd (congrArg List.head? method) (plain hash1 _)
  · exact absurd (congrArg List.head? method).symm (plain hash2 _)
  · exact ⟨rfl, hashes (List.append_cancel_left method)⟩

/-- No two of these texts have one digest. -/
def NoCollision {α : Type} (digest : Bytes → α) (texts : List Bytes) : Prop :=
  ∀ left ∈ texts, ∀ right ∈ texts, digest left = digest right → left = right

instance {α : Type} [DecidableEq α] (digest : Bytes → α) (texts : List Bytes) :
    Decidable (NoCollision digest texts) :=
  inferInstanceAs (Decidable (∀ left ∈ texts, ∀ right ∈ texts, digest left = digest right → left = right))

/-- The kinds of content addresses, by what a fingerprint starts with. -/
theorem kindOf_cases (ending : Bytes) (ca : ContentAddress) :
    (∃ digest, ca = .text digest ∧ kindOf ending ca = asciiBytes "text:sha256:" ++ lowerHex digest.bytes) ∨
    (∃ hash, ca = .recursive hash ∧ hash.algorithm = .sha256 ∧
      kindOf ending ca = asciiBytes "source:sha256:" ++ lowerHex hash.bytes) ∨
    ∃ recursive hash, ca = (if recursive = true then .recursive hash else .flat hash) ∧
      fixedOutputs ending ca = [fixedOutput ending recursive hash] ∧
      kindOf ending ca = asciiBytes "output:out:sha256:" ++
        lowerHex (Digest.sha256 (fixedOutput ending recursive hash)).bytes := by
  cases ca with
  | text digest => exact .inl ⟨digest, rfl, rfl⟩
  | flat hash => exact .inr (.inr ⟨false, hash, rfl, rfl, rfl⟩)
  | recursive hash =>
    by_cases same : hash.algorithm = .sha256
    · exact .inr (.inl ⟨hash, rfl, same, if_pos same⟩)
    · exact .inr (.inr ⟨true, hash, rfl, if_neg same, if_neg same⟩)

/-- What a fingerprint starts with names the content address, unless two texts of fixed outputs have
one digest. -/
theorem kindOf_inj {ending : Bytes} {ca1 ca2 : ContentAddress}
    (apart : NoCollision Digest.sha256 (fixedOutputs ending ca1 ++ fixedOutputs ending ca2))
    (same : kindOf ending ca1 = kindOf ending ca2) : ca1 = ca2 := by
  have first := congrArg List.head? same
  rcases kindOf_cases ending ca1 with ⟨digest1, made1, kind1⟩ | ⟨hash1, made1, algorithm1, kind1⟩ |
      ⟨recursive1, hash1, made1, outputs1, kind1⟩ <;>
    rcases kindOf_cases ending ca2 with ⟨digest2, made2, kind2⟩ | ⟨hash2, made2, algorithm2, kind2⟩ |
      ⟨recursive2, hash2, made2, outputs2, kind2⟩ <;>
    rw [kind1, kind2] at same first
  case inl.inl =>
    have bytes := lowerHex_injective (List.append_cancel_left same)
    cases digest1
    cases digest2
    cases bytes
    rw [made1, made2]
  case inr.inl.inr.inl =>
    rw [made1, made2, hash_ext (algorithm1.trans algorithm2.symm) (List.append_cancel_left same)]
  case inr.inr.inr.inr =>
    have bytes := lowerHex_injective (List.append_cancel_left same)
    have digests : Digest.sha256 (fixedOutput ending recursive1 hash1) =
        Digest.sha256 (fixedOutput ending recursive2 hash2) := by
      generalize Digest.sha256 (fixedOutput ending recursive1 hash1) = digest1 at bytes
      generalize Digest.sha256 (fixedOutput ending recursive2 hash2) = digest2 at bytes
      cases digest1
      cases digest2
      cases bytes
      rfl
    rw [outputs1, outputs2] at apart
    obtain ⟨rfl, rfl⟩ := fixedOutput_inj (apart _ (by simp) _ (by simp) digests)
    rw [made1, made2]
  all_goals exact absurd first nofun

/-- A fingerprint identifies what it is of, unless two texts of fixed outputs have one digest. -/
theorem fingerprintOf_injective {ending : Bytes} {dir : StoreDir} {name1 name2 : StorePathName}
    {ca1 ca2 : ContentAddress}
    (apart : NoCollision Digest.sha256 (fixedOutputs ending ca1 ++ fixedOutputs ending ca2))
    (same : fingerprintOf ending dir name1 ca1 = fingerprintOf ending dir name2 ca2) :
    (name1, ca1) = (name2, ca2) := by
  obtain ⟨kinds, rfl⟩ := fingerprintOf_inj same
  rw [kindOf_inj apart kinds]

/-- Nothing but a text and a recursive SHA-256 is hashed as a fixed output. -/
def ContentAddress.IsFixedOutput : ContentAddress → Prop
  | .text _ => False
  | .recursive hash => hash.algorithm ≠ .sha256
  | .flat _ => True

/-- What a fingerprint starts with does not end with anything, unless it is of a fixed output. -/
theorem kindOf_ending (ending : Bytes) {ca : ContentAddress} (plain : ¬ ca.IsFixedOutput) :
    kindOf ending ca = kindOf [] ca := by
  cases ca with
  | text digest => rfl
  | flat hash => exact absurd trivial plain
  | recursive hash =>
    have same : hash.algorithm = .sha256 := Decidable.of_not_not plain
    rw [kindOf, kindOf, if_pos same, if_pos same]

/-- For a fixed output the fingerprint is not Nix's, if its text has two digests with and without the
colon. -/
theorem fingerprint_ne [DataEncoding] {dir : StoreDir} {name : StorePathName} {ca : ContentAddress}
    (apart : NoCollision Digest.sha256 (fixedOutputs [] ca ++ fixedOutputs [58] ca))
    (output : ca.IsFixedOutput) : fingerprint dir name ca ≠ nixFingerprint dir name ca := by
  intro same
  rw [fingerprint_eq] at same
  obtain ⟨kinds, _⟩ := fingerprintOf_inj same
  -- The colon makes the texts differ in length.
  have longer (recursive : Bool) (hash : Hash) :
      fixedOutput [] recursive hash ≠ fixedOutput [58] recursive hash := by
    intro equal
    rw [fixedOutput, fixedOutput] at equal
    exact absurd (List.append_cancel_left equal) (by decide)
  have digests (recursive : Bool) (hash : Hash) (outputs : ∀ ending, fixedOutputs ending ca =
      [fixedOutput ending recursive hash]) (bytes : (Digest.sha256 (fixedOutput [] recursive hash)).bytes =
        (Digest.sha256 (fixedOutput [58] recursive hash)).bytes) : False := by
    apply longer recursive hash
    rw [outputs, outputs] at apart
    apply apart _ (by simp) _ (by simp)
    generalize Digest.sha256 (fixedOutput [] recursive hash) = digest1 at bytes
    generalize Digest.sha256 (fixedOutput [58] recursive hash) = digest2 at bytes
    cases digest1
    cases digest2
    cases bytes
    rfl
  cases ca with
  | text digest => exact output
  | flat hash =>
    exact digests false hash (fun _ => rfl) (lowerHex_injective (List.append_cancel_left kinds))
  | recursive hash =>
    have other : hash.algorithm ≠ .sha256 := output
    rw [kindOf, kindOf, if_neg other, if_neg other] at kinds
    exact digests true hash (fun _ => if_neg other) (lowerHex_injective (List.append_cancel_left kinds))

/-- A path is made of the fingerprint. -/
theorem StoreDir.makeStorePathFromCa_eq [DataEncoding] (dir : StoreDir) (name : StorePathName)
    (ca : ContentAddress) : dir.makeStorePathFromCa name ca =
      ⟨.newFromHash (Digest.sha256 (fingerprint dir name ca)), name⟩ := rfl

/-- Where SHA-256 tells the texts at hand apart, a path is made as Nix makes it exactly if the content
address is not of a fixed output; and two pairs of a name and a content address never have the same
fingerprint. -/
theorem StoreDir.makeStorePathFromCa_nix [DataEncoding] (dir : StoreDir) (name : StorePathName)
    (ca : ContentAddress)
    (apart : NoCollision Digest.sha256 (fixedOutputs [] ca ++ fixedOutputs [58] ca))
    (folded : NoCollision (fun text => StorePathHash.newFromHash (Digest.sha256 text))
      [fingerprint dir name ca, nixFingerprint dir name ca]) :
    ((dir.makeStorePathFromCa name ca).name = name ∧
        (dir.makeStorePathFromCa name ca).hash =
          .newFromHash (Digest.sha256 (nixFingerprint dir name ca)) ↔ ¬ ca.IsFixedOutput) ∧
      ∀ (name' : StorePathName) (ca' : ContentAddress),
        NoCollision Digest.sha256 (fixedOutputs [] ca ++ fixedOutputs [] ca') →
        fingerprint dir name ca = fingerprint dir name' ca' → (name, ca) = (name', ca') := by
  rw [makeStorePathFromCa_eq]
  refine ⟨⟨?_, ?_⟩, ?_⟩
  · rintro ⟨_, same⟩ output
    exact fingerprint_ne apart output (folded _ (by simp) _ (by simp) same)
  · intro plain
    have same : fingerprint dir name ca = nixFingerprint dir name ca := by
      rw [fingerprint_eq, nixFingerprint, fingerprintOf, fingerprintOf, kindOf_ending [58] plain]
    exact ⟨rfl, by rw [same]⟩
  · intro name' ca' apart' same
    rw [fingerprint_eq, fingerprint_eq] at same
    exact fingerprintOf_injective apart' same

end Fingerprints

section Samples

attribute [local instance] standard Digest.standard

/-- A name of a store path. -/
def konsole : StorePathName := ⟨asciiBytes "konsole-18.12.3", by decide +kernel⟩

/-- The SHA-256 of a text of the standard. -/
def sampleHash : Hash :=
  ⟨.sha256, [0x24, 0x8d, 0x6a, 0x61, 0xd2, 0x06, 0x38, 0xb8, 0xe5, 0xc0, 0x26, 0x93, 0x0c, 0x3e, 0x60,
    0x39, 0xa3, 0x3c, 0xe4, 0x59, 0x64, 0xff, 0x21, 0x67, 0xf6, 0xec, 0xed, 0xd4, 0x19, 0xdb, 0x06,
    0xc1], by decide⟩

/-- The path of a flat hash is not Nix's, and another flat hash has another fingerprint. -/
theorem makeStorePathFromCa_nix_sample :
    (StoreDir.default.makeStorePathFromCa konsole (.flat sampleHash)).hash ≠
        .newFromHash (Digest.sha256 (nixFingerprint .default konsole (.flat sampleHash))) ∧
      fingerprint .default konsole (.flat sampleHash) ≠
        fingerprint .default konsole (.recursive sampleHash) := by
  have all := StoreDir.makeStorePathFromCa_nix .default konsole (.flat sampleHash) (by decide +kernel)
    (by decide +kernel)
  constructor
  · intro same
    exact all.1.mp ⟨rfl, same⟩ trivial
  · intro same
    exact absurd (all.2 konsole (.recursive sampleHash) (by decide +kernel) same) (by decide +kernel)

/-- The path of a flat hash is the one the tests expect, and not Nix's. -/
theorem fixed_output_path_differs :
    (StoreDir.default.makeStorePathFromCa konsole (.flat sampleHash)).display =
        asciiBytes "g9ngnw4w5vr9y3xkb7k2awl3mp95abrb-konsole-18.12.3" ∧
      (StoreDir.default.makeStorePathFromCa konsole (.flat sampleHash)).hash ≠
        .newFromHash (Digest.sha256 (nixFingerprint .default konsole (.flat sampleHash))) := by
  constructor
  · decide +kernel
  · decide +kernel

end Samples

end Harmonia.Store
