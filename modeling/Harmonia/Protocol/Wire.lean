import Harmonia.Protocol.Read

/-!
# Values on the wire

`NixSerialize` and `NixDeserialize`, with the instances for numbers, strings and collections and
the derived ones for records. `Wire` says of a type which of its values a connection carries: those
are read back from what is written of them, whatever follows, and nothing else is ever read.
-/

namespace Harmonia.Protocol

open Library Store

/-- `NixSerialize`. -/
class NixSerialize (α : Type) where
  /-- `serialize`: the calls it makes on its writer. -/
  serialize : Ctx → α → List Token

/-- `NixDeserialize`. -/
class NixDeserialize (α : Type) where
  /-- `try_deserialize`: the calls it makes on its reader. -/
  tryDeserialize : Ctx → Read (Option α)

export NixSerialize (serialize)
export NixDeserialize (tryDeserialize)

/-- `read_value`. -/
def readValue (α : Type) [NixDeserialize α] (ctx : Ctx) : Read α := do
  match ← tryDeserialize ctx with
  | some value => pure value
  | none => .fail missingData

/-- A conversion that may refuse. -/
def convert {α β : Type} (read : Read (Option α)) (tryFrom : α → Option β) : Read (Option β) := do
  match ← read with
  | some value =>
    match tryFrom value with
    | some converted => pure (some converted)
    | none => .fail unparsed
  | none => pure none

/-- A conversion by a parser that calls itself so often before it refuses or accepts anything. -/
def convertNested {α β : Type} (read : Read (Option α)) (depth : α → Nat) (tryFrom : α → Option β) :
    Read (Option β) := do
  match ← read with
  | some value =>
    .nested (depth value) (match tryFrom value with
      | some converted => pure (some converted)
      | none => .fail unparsed)
  | none => pure none

/-- A first value, before which the input may end, and what is read after it. -/
def readThen {τ α : Type} [NixDeserialize τ] (ctx : Ctx) (after : τ → Read α) : Read (Option α) := do
  match ← tryDeserialize ctx with
  | some first => do
    let value ← after first
    pure (some value)
  | none => pure none

/-- The values of a type that a connection carries. -/
class Wire (α : Type) [DataEncoding] [NixSerialize α] [NixDeserialize α] where
  /-- They are carried. -/
  Carried : Ctx → α → Prop
  /-- What is written of such a value is read as that value, and nothing more. -/
  reads : ∀ {ctx : Ctx} {value : α}, Carried ctx value → ∀ tail : Bytes,
    (tryDeserialize ctx).run ctx (encode (serialize ctx value) ++ tail) =
      .ok (some value) tail
  /-- Whatever is read is such a value. -/
  accepts : ∀ {ctx : Ctx} {value : α} {input rest : Bytes}, 128 ≤ ctx.maxBufSize →
    (tryDeserialize ctx).run ctx input = .ok (some value) rest → Carried ctx value

export Wire (Carried)

section Laws

variable {α β : Type}

/-- A conversion of a value that is read. -/
theorem run_convert_ok {ctx : Ctx} {read : Read (Option α)} {tryFrom : α → Option β}
    {input tail : Bytes} {value : α} {converted : β}
    (ran : read.run ctx input = .ok (some value) tail) (made : tryFrom value = some converted) :
    (convert read tryFrom).run ctx input = .ok (some converted) tail := by
  rw [convert, Read.run_bind, ran]
  show Read.run ctx (match tryFrom value with | some converted => _ | none => _) tail = _
  rw [made]
  rfl

/-- What a conversion gives was read and converted. -/
theorem run_convert_some {ctx : Ctx} {read : Read (Option α)} {tryFrom : α → Option β}
    {input rest : Bytes} {converted : β}
    (ran : (convert read tryFrom).run ctx input = .ok (some converted) rest) :
    ∃ value, read.run ctx input = .ok (some value) rest ∧ tryFrom value = some converted := by
  obtain ⟨mid, between, first, second⟩ := Read.run_bind_ok ran
  cases mid with
  | none => cases second
  | some value =>
    simp only at second
    cases made : tryFrom value with
    | none =>
      rw [made] at second
      cases second
    | some other =>
      rw [made] at second
      cases second
      exact ⟨value, first, made⟩

/-- How deep a parser calls itself makes no difference to what it reads. -/
theorem run_convertNested (ctx : Ctx) (read : Read (Option α)) (depth : α → Nat) (tryFrom : α → Option β)
    (input : Bytes) :
    (convertNested read depth tryFrom).run ctx input = (convert read tryFrom).run ctx input := by
  rw [convertNested, convert, Read.run_bind, Read.run_bind]
  cases read.run ctx input with
  | ok value rest =>
    cases value with
    | none => rfl
    | some value => rfl
  | error error => rfl
  | panic => rfl

/-- Reading one thing after a first. -/
theorem run_readThen {τ : Type} [NixDeserialize τ] {ctx : Ctx} {after : τ → Read α} {first : τ}
    {value : α} {input between rest : Bytes}
    (one : (tryDeserialize ctx).run ctx input = .ok (some first) between)
    (two : (after first).run ctx between = .ok value rest) :
    (readThen ctx after).run ctx input = .ok (some value) rest := by
  rw [readThen, Read.run_bind, one]
  show Read.run ctx (_ >>= _) between = _
  rw [Read.run_bind, two]
  rfl

/-- One thing that was read after a first. -/
theorem run_readThen_some {τ : Type} [NixDeserialize τ] {ctx : Ctx} {after : τ → Read α} {value : α}
    {input rest : Bytes} (ran : (readThen ctx after).run ctx input = .ok (some value) rest) :
    ∃ first between, (tryDeserialize ctx).run ctx input = .ok (some first) between ∧
      (after first).run ctx between = .ok value rest := by
  obtain ⟨mid, between, one, more⟩ := Read.run_bind_ok ran
  cases mid with
  | none => cases more
  | some first =>
    obtain ⟨other, _, two, made⟩ := Read.run_bind_ok more
    cases made
    exact ⟨first, between, one, two⟩

section Values

variable [DataEncoding] [NixSerialize α] [NixDeserialize α] [Wire α]

/-- `read_value` gives a carried value. -/
theorem run_readValue {ctx : Ctx} {value : α} (carried : Carried ctx value) (tail : Bytes) :
    (readValue α ctx).run ctx (encode (serialize ctx value) ++ tail) = .ok value tail := by
  rw [readValue, Read.run_bind, Wire.reads carried]
  rfl

omit [DataEncoding] [NixSerialize α] [Wire α] in
/-- What `read_value` gives is what `try_read_value` gives. -/
theorem run_readValue_ok {ctx : Ctx} {value : α} {input rest : Bytes}
    (ran : (readValue α ctx).run ctx input = .ok value rest) :
    (tryDeserialize ctx).run ctx input = .ok (some value) rest := by
  obtain ⟨mid, between, first, second⟩ := Read.run_bind_ok ran
  cases mid with
  | none => cases second
  | some other =>
    cases second
    exact first

/-- Whatever `read_value` gives is carried. -/
theorem carried_of_readValue {ctx : Ctx} {value : α} {input rest : Bytes}
    (large : 128 ≤ ctx.maxBufSize)
    (ran : (readValue α ctx).run ctx input = .ok value rest) : Carried ctx value :=
  Wire.accepts large (run_readValue_ok ran)

end Values

end Laws

/-! ## Numbers and strings -/

instance : NixSerialize UInt64 := ⟨fun _ value => [.number value]⟩
instance : NixDeserialize UInt64 := ⟨fun _ => .number .done⟩

/-- Any word. -/
instance [DataEncoding] : Wire UInt64 where
  Carried _ _ := True
  reads := by
    intro ctx value _ tail
    show Read.run _ (.number .done) (toLeBytes value ++ [] ++ tail) = _
    rw [List.append_nil, Read.run_number_done, Read.tryReadNumber_toLeBytes]
  accepts := fun _ _ => trivial

/-- A type that is written as a number. -/
class Coded (α : Type) where
  /-- `Into<u64>`, through the type the source names. -/
  code : α → UInt64
  /-- `TryFrom<u64>`, through the type the source names. -/
  tryFrom : UInt64 → Option α
  /-- A value is made of its own number. -/
  tryFrom_code : ∀ value, tryFrom (code value) = some value

section Coded

variable {α : Type} [Coded α]

instance (priority := low) : NixSerialize α := ⟨fun _ value => [.number (Coded.code value)]⟩
instance (priority := low) : NixDeserialize α := ⟨fun ctx => convert (tryDeserialize ctx) Coded.tryFrom⟩

/-- Any value. -/
instance (priority := low) [DataEncoding] : Wire α where
  Carried _ _ := True
  reads := by
    intro ctx value _ tail
    exact run_convert_ok (Wire.reads (α := UInt64) trivial tail) (Coded.tryFrom_code value)
  accepts := fun _ _ => trivial

end Coded

instance : Coded UInt8 where
  code := UInt8.toUInt64
  tryFrom value := if value.toNat < 2 ^ 8 then some value.toUInt8 else none
  tryFrom_code value := by
    rw [if_pos (by rw [UInt8.toNat_toUInt64]; exact value.toNat_lt)]
    simp

instance : Coded UInt16 where
  code := UInt16.toUInt64
  tryFrom value := if value.toNat < 2 ^ 16 then some value.toUInt16 else none
  tryFrom_code value := by
    rw [if_pos (by rw [UInt16.toNat_toUInt64]; exact value.toNat_lt)]
    simp

instance : Coded UInt32 where
  code := UInt32.toUInt64
  tryFrom value := if value.toNat < 2 ^ 32 then some value.toUInt32 else none
  tryFrom_code value := by
    rw [if_pos (by rw [UInt32.toNat_toUInt64]; exact value.toNat_lt)]
    simp

instance : Coded Int64 where
  code := Int64.toUInt64
  tryFrom value := some value.toInt64
  tryFrom_code value := by simp

/-- Anything but zero reads as true. -/
instance : Coded Bool where
  code value := if value then 1 else 0
  tryFrom value := some (value != 0)
  tryFrom_code value := by cases value <;> rfl

instance : NixSerialize ByteString := ⟨fun _ value => [.slice value.bytes]⟩
instance : NixDeserialize ByteString := ⟨fun _ => .bytes .done⟩


/-- Byte strings that are not too long. -/
instance [DataEncoding] : Wire ByteString where
  Carried ctx value := value.bytes.length ≤ ctx.maxBufSize
  reads := by
    intro ctx value short tail
    rw [show encode (serialize ctx value) = putNixSlice value.bytes from encode_singleton _]
    show (Read.bytes .done).run ctx _ = _
    have small := value.small
    rw [Read.run_bytes_done, Read.tryReadBytes_putNixSlice ctx (by omega), dif_pos short]
  accepts := by
    intro ctx value input rest _ ran
    change (Read.bytes .done).run ctx _ = _ at ran
    rw [Read.run_bytes_done] at ran
    exact Read.tryReadBytes_length ran

instance : NixSerialize Text := ⟨fun _ value => [.slice value.bytes]⟩
instance : NixDeserialize Text :=
  ⟨fun ctx => convert (tryDeserialize ctx) fun buf : ByteString => Text.fromUtf8 buf.bytes⟩

/-- Texts that are not too long. -/
instance [DataEncoding] : Wire Text where
  Carried ctx value := value.bytes.length ≤ ctx.maxBufSize
  reads := by
    intro ctx value short tail
    have read := Wire.reads (show Carried ctx value.toByteString from short) tail
    exact run_convert_ok read (Text.fromUtf8_bytes value)
  accepts := by
    intro ctx value input rest large ran
    obtain ⟨buf, read, made⟩ := run_convert_some ran
    have short : buf.bytes.length ≤ ctx.maxBufSize := Wire.accepts large read
    rw [← Text.fromUtf8_some made] at short
    exact short

/-- `()`: nothing is read. -/
instance : NixDeserialize Unit := ⟨fun _ => pure (some ())⟩

/-- A type that is written as a text, which may depend on the store directory. -/
class Textual (α : Type) [DataEncoding] where
  /-- The displayed token. -/
  token : Ctx → α → Token
  /-- Its text. -/
  shown : Ctx → α → Bytes
  /-- `FromStr`, or `FromStoreDirStr`. -/
  parse : Ctx → Bytes → Option α
  /-- The values whose text is parsed to them. -/
  Legal : Ctx → α → Prop
  /-- The token puts the text on the wire. -/
  token_bytes : ∀ ctx value, (token ctx value).bytes = putNixSlice (shown ctx value)
  /-- The text of a legal value is UTF-8. -/
  utf8 : ∀ {ctx value}, Legal ctx value → Utf8.Valid (shown ctx value)
  /-- The text of a legal value is parsed to it. -/
  parse_shown : ∀ {ctx value}, Legal ctx value → parse ctx (shown ctx value) = some value
  /-- What is parsed is legal, and its text is short or no longer than what was parsed. -/
  parse_some : ∀ {ctx text value}, parse ctx text = some value →
    Legal ctx value ∧ (shown ctx value).length ≤ max 128 text.length

section Textual

variable {α : Type} [DataEncoding] [Textual α]

/-- `from_utf8` and then `FromStr`. -/
def parseText (ctx : Ctx) (buf : ByteString) : Option α :=
  if Utf8.Valid buf.bytes then Textual.parse ctx buf.bytes else none

instance (priority := low) textualSerialize : NixSerialize α :=
  ⟨fun ctx value => [Textual.token ctx value]⟩

instance (priority := low) textualDeserialize : NixDeserialize α :=
  ⟨fun ctx => convert (tryDeserialize ctx) (parseText ctx)⟩

/-- A text that is not too long is read. -/
theorem run_shown {ctx : Ctx} {value : α} (short : (Textual.shown ctx value).length ≤ ctx.maxBufSize)
    (tail : Bytes) :
    (tryDeserialize ctx).run ctx (encode [Textual.token ctx value] ++ tail) =
      .ok (some (⟨Textual.shown ctx value, Nat.lt_of_le_of_lt short ctx.small⟩ : ByteString)) tail := by
  rw [encode_singleton, Textual.token_bytes]
  have read := Wire.reads (show Carried ctx (⟨Textual.shown ctx value,
    Nat.lt_of_le_of_lt short ctx.small⟩ : ByteString) from short) tail
  rwa [show encode (serialize ctx _) = _ from encode_singleton _] at read

/-- Legal values whose text is not too long. -/
instance (priority := low) textualWire : Wire α where
  Carried ctx value := Textual.Legal ctx value ∧ (Textual.shown ctx value).length ≤ ctx.maxBufSize
  reads := by
    intro ctx value carried tail
    apply run_convert_ok (run_shown carried.2 tail)
    rw [parseText, if_pos (Textual.utf8 carried.1), Textual.parse_shown carried.1]
  accepts := by
    intro ctx value input rest large ran
    obtain ⟨buf, read, made⟩ := run_convert_some ran
    have short : buf.bytes.length ≤ ctx.maxBufSize := Wire.accepts large read
    unfold parseText at made
    split at made
    case isTrue =>
      obtain ⟨legal, shorter⟩ := Textual.parse_some made
      exact ⟨legal, by omega⟩
    case isFalse => cases made

end Textual

/-! ## Records -/

section Records

variable {α β : Type}

/-- One field and then another. -/
instance [NixSerialize α] [NixSerialize β] : NixSerialize (α × β) :=
  ⟨fun ctx value => serialize ctx value.1 ++ serialize ctx value.2⟩

/-- Only before the first field may the input end. -/
instance [NixDeserialize α] [NixDeserialize β] : NixDeserialize (α × β) :=
  ⟨fun ctx => readThen ctx fun first => do
    let second ← readValue β ctx
    pure (first, second)⟩

/-- Reading two fields that are there. -/
theorem run_pair [NixDeserialize α] [NixDeserialize β] {ctx : Ctx} {input between rest : Bytes}
    {first : α} {second : β} (one : (tryDeserialize ctx).run ctx input = .ok (some first) between)
    (two : (readValue β ctx).run ctx between = .ok second rest) :
    (tryDeserialize ctx : Read (Option (α × β))).run ctx input = .ok (some (first, second)) rest := by
  apply run_readThen one
  rw [Read.run_bind, two]
  rfl

/-- Two fields that were read. -/
theorem run_pair_some [NixDeserialize α] [NixDeserialize β] {ctx : Ctx} {input rest : Bytes}
    {value : α × β}
    (ran : (tryDeserialize ctx : Read (Option (α × β))).run ctx input = .ok (some value) rest) :
    ∃ between, (tryDeserialize ctx).run ctx input = .ok (some value.1) between ∧
      (readValue β ctx).run ctx between = .ok value.2 rest := by
  obtain ⟨first, between, one, more⟩ := run_readThen_some ran
  obtain ⟨second, after, two, made⟩ := Read.run_bind_ok more
  cases made
  exact ⟨between, one, two⟩

/-- Fields that are carried. -/
instance [DataEncoding] [NixSerialize α] [NixDeserialize α] [Wire α] [NixSerialize β]
    [NixDeserialize β] [Wire β] : Wire (α × β) where
  Carried ctx value := Carried ctx value.1 ∧ Carried ctx value.2
  reads := by
    intro ctx value carried tail
    have joins : encode (serialize ctx value) ++ tail =
        encode (serialize ctx value.1) ++ (encode (serialize ctx value.2) ++ tail) := by
      rw [← List.append_assoc, ← encode_append]
      rfl
    rw [joins]
    exact run_pair (Wire.reads carried.1 _) (run_readValue carried.2 tail)
  accepts := by
    intro ctx value input rest large ran
    obtain ⟨between, one, two⟩ := run_pair_some ran
    exact ⟨Wire.accepts large one, carried_of_readValue large two⟩

/-- A type whose serialisation is derived from its fields. -/
class Record (α : Type) (Fields : outParam Type) where
  /-- The fields in order. -/
  fields : α → Fields
  /-- `Self { … }`. -/
  make : Fields → α
  /-- A value is made of its own fields. -/
  make_fields : ∀ value, make (fields value) = value
  /-- The fields of what was made. -/
  fields_make : ∀ list, fields (make list) = list

variable {Fields : Type} [Record α Fields]

/-- `derive(NixSerialize)`. -/
instance (priority := low) recordSerialize [NixSerialize Fields] : NixSerialize α :=
  ⟨fun ctx value => serialize ctx (Record.fields value)⟩

/-- `derive(NixDeserialize)`. -/
instance (priority := low) recordDeserialize [NixDeserialize Fields] : NixDeserialize α :=
  ⟨fun ctx => convert (tryDeserialize ctx) fun fields : Fields => some (Record.make fields)⟩

/-- Records whose fields are carried. -/
instance (priority := low) recordWire [DataEncoding] [NixSerialize Fields] [NixDeserialize Fields]
    [Wire Fields] : Wire α where
  Carried ctx value := Carried ctx (Record.fields value)
  reads := by
    intro ctx value carried tail
    apply run_convert_ok (Wire.reads carried tail)
    rw [Record.make_fields]
  accepts := by
    intro ctx value input rest large ran
    obtain ⟨fields, read, made⟩ := run_convert_some ran
    cases made
    rw [Record.fields_make]
    exact Wire.accepts large read

end Records

/-! ## Collections -/

section Collections

variable {α : Type}

/-- `for _ in 0..len { … reader.read_value().await? … }`. -/
def readItems (item : Read α) : Nat → Read (List α)
  | 0 => pure []
  | count + 1 => do
    let value ← item
    let rest ← readItems item count
    pure (value :: rest)

/-- The length of a collection and its items. -/
def serializeItems [NixSerialize α] (ctx : Ctx) (items : List α) : List Token :=
  .number (UInt64.ofNat items.length) :: items.flatMap (serialize ctx)

/-- Items that are carried are read one after the other. -/
theorem run_readItems [DataEncoding] [NixSerialize α] [NixDeserialize α] [Wire α] {ctx : Ctx}
    {items : List α} (carried : ∀ item ∈ items, Carried ctx item) (tail : Bytes) :
    (readItems (readValue α ctx) items.length).run ctx
      (encode (items.flatMap (serialize ctx)) ++ tail) = .ok items tail := by
  induction items with
  | nil => rfl
  | cons item rest ih =>
    have joins : encode ((item :: rest).flatMap (serialize ctx)) ++ tail =
        encode (serialize ctx item) ++ (encode (rest.flatMap (serialize ctx)) ++ tail) := by
      rw [List.flatMap_cons, encode_append, List.append_assoc]
    rw [joins, List.length_cons, readItems, Read.run_bind,
      run_readValue (carried item List.mem_cons_self)]
    show Read.run ctx (_ >>= _) _ = _
    rw [Read.run_bind, ih fun other member => carried other (List.mem_cons_of_mem _ member)]
    rfl

/-- Items that were read one after the other. -/
theorem run_readItems_ok {ctx : Ctx} {item : Read α} {P : α → Prop}
    (each : ∀ {input rest value}, item.run ctx input = .ok value rest → P value) {count : Nat}
    {input rest : Bytes} {items : List α} (ran : (readItems item count).run ctx input = .ok items rest) :
    items.length = count ∧ ∀ value ∈ items, P value := by
  induction count generalizing input items with
  | zero =>
    cases ran
    exact ⟨rfl, List.forall_mem_nil _⟩
  | succ count ih =>
    obtain ⟨value, between, one, more⟩ := Read.run_bind_ok ran
    obtain ⟨others, after, later, made⟩ := Read.run_bind_ok more
    cases made
    obtain ⟨length, all⟩ := ih later
    exact ⟨congrArg Nat.succ length, List.forall_mem_cons.mpr ⟨each one, all⟩⟩

/-- The length of a collection, and what is read after it. -/
def readCounted (ctx : Ctx) (after : Nat → Read α) : Read (Option α) :=
  readThen ctx fun len : UInt64 => after len.toNat

/-- A collection whose length was written is read. -/
theorem run_readCounted [DataEncoding] {ctx : Ctx} {after : Nat → Read α} {length : Nat}
    {tokens : List Token} {tail rest : Bytes} {value : α} (small : length < 2 ^ 64)
    (read : (after length).run ctx (encode tokens ++ tail) = .ok value rest) :
    (readCounted ctx after).run ctx (encode (.number (UInt64.ofNat length) :: tokens) ++ tail) =
      .ok (some value) rest := by
  have first := Wire.reads (show Carried ctx (UInt64.ofNat length) from trivial)
    (encode tokens ++ tail)
  rw [show encode (serialize ctx (UInt64.ofNat length)) = _ from encode_singleton _] at first
  rw [encode_cons, List.append_assoc]
  apply run_readThen first
  rw [UInt64.toNat_ofNat_of_lt' small]
  exact read

/-- The items of a vector, for which there was room. -/
def Vec.ofItems [Layout] [Sized α] (items : List α) : Read (Vec α) :=
  if fits : items.length * sizeOfType α < 2 ^ 63 then pure ⟨items, fits⟩ else .fail unparsed

section Instances

variable [NixSerialize α] [NixDeserialize α]

instance [Layout] [Sized α] : NixSerialize (Vec α) := ⟨fun ctx value => serializeItems ctx value.items⟩

instance [Layout] [Sized α] : NixDeserialize (Vec α) :=
  ⟨fun ctx => readCounted ctx fun len => .reserve len (sizeOfType α) do
    let items ← readItems (readValue α ctx) len
    Vec.ofItems items⟩

instance [Ord α] [Std.TransOrd α] : NixSerialize (BTreeSet α) :=
  ⟨fun ctx value => serializeItems ctx value.items⟩

instance [Ord α] [Std.TransOrd α] : NixDeserialize (BTreeSet α) :=
  ⟨fun ctx => readCounted ctx fun len => do
    let items ← readItems (readValue α ctx) len
    pure (items.foldl .insert .empty)⟩

instance {κ : Type} [Ord κ] [Std.TransOrd κ] [NixSerialize κ] : NixSerialize (BTreeMap κ α) :=
  ⟨fun ctx value => serializeItems ctx value.entries⟩

instance {κ : Type} [Ord κ] [Std.TransOrd κ] [NixDeserialize κ] : NixDeserialize (BTreeMap κ α) :=
  ⟨fun ctx => readCounted ctx fun len => do
    let entries ← readItems (readValue (κ × α) ctx) len
    pure (entries.foldl .insert .empty)⟩

variable [DataEncoding] [Wire α]

/-- Vectors whose items are carried. -/
instance [Layout] [Sized α] : Wire (Vec α) where
  Carried ctx value := ∀ item ∈ value.items, Carried ctx item
  reads := by
    intro ctx value carried tail
    obtain ⟨items, fits⟩ := value
    have positive : 0 < sizeOfType α := Layout.positive _
    have small : items.length < 2 ^ 63 :=
      Nat.lt_of_le_of_lt (Nat.le_mul_of_pos_right _ positive) fits
    apply run_readCounted (Nat.lt_trans small (by decide))
    rw [Read.run, if_neg (Nat.not_le.mpr fits), Read.run_bind, run_readItems carried]
    show Read.run ctx (Vec.ofItems items) tail = _
    rw [Vec.ofItems, dif_pos fits]
    rfl
  accepts := by
    intro ctx value input rest large ran
    obtain ⟨len, between, -, more⟩ := run_readThen_some ran
    rw [Read.run] at more
    split at more
    case isTrue => cases more
    case isFalse =>
      obtain ⟨items, after, read, made⟩ := Read.run_bind_ok more
      obtain ⟨length, all⟩ := run_readItems_ok (carried_of_readValue large) read
      unfold Vec.ofItems at made
      split at made
      case isTrue =>
        cases made
        exact all
      case isFalse => cases made

/-- Sets whose members are carried. Their number is a `usize`. -/
instance [Ord α] [Std.TransOrd α] : Wire (BTreeSet α) where
  Carried ctx value := value.items.length < 2 ^ 64 ∧ ∀ item ∈ value.items, Carried ctx item
  reads := by
    intro ctx value carried tail
    apply run_readCounted carried.1
    rw [Read.run_bind, run_readItems carried.2]
    show Outcome.ok (value.items.foldl BTreeSet.insert BTreeSet.empty) tail = _
    rw [BTreeSet.insert_ascending value.items .empty value rfl]
  accepts := by
    intro ctx value input rest large ran
    obtain ⟨len, between, -, more⟩ := run_readThen_some ran
    obtain ⟨items, after, read, made⟩ := Read.run_bind_ok more
    cases made
    obtain ⟨length, all⟩ := run_readItems_ok (carried_of_readValue large) read
    constructor
    · have count := BTreeSet.insert_all_length items .empty
      have bound := len.toNat_lt
      have nothing : (BTreeSet.empty : BTreeSet α).items.length = 0 := rfl
      omega
    · intro item member
      rcases BTreeSet.mem_insert_all member with before | listed
      · cases before
      · exact all item listed

/-- Maps whose keys and values are carried. Their number is a `usize`. -/
instance {κ : Type} [Ord κ] [Std.TransOrd κ] [NixSerialize κ] [NixDeserialize κ] [Wire κ] :
    Wire (BTreeMap κ α) where
  Carried ctx value := value.entries.length < 2 ^ 64 ∧
    ∀ entry ∈ value.entries, Carried ctx entry.1 ∧ Carried ctx entry.2
  reads := by
    intro ctx value carried tail
    apply run_readCounted carried.1
    rw [Read.run_bind, run_readItems carried.2]
    show Outcome.ok (value.entries.foldl BTreeMap.insert BTreeMap.empty) tail = _
    rw [BTreeMap.insert_ascending value.entries .empty value rfl]
  accepts := by
    intro ctx value input rest large ran
    obtain ⟨len, between, -, more⟩ := run_readThen_some ran
    obtain ⟨entries, after, read, made⟩ := Read.run_bind_ok more
    cases made
    obtain ⟨length, all⟩ := run_readItems_ok (carried_of_readValue large) read
    constructor
    · have count := BTreeMap.insert_all_length entries .empty
      have bound := len.toNat_lt
      have nothing : (BTreeMap.empty : BTreeMap κ α).entries.length = 0 := rfl
      omega
    · exact BTreeMap.insert_all_forall (List.forall_mem_nil _) all

end Instances

end Collections

end Harmonia.Protocol
