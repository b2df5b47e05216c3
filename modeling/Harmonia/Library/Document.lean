import Mathlib.Data.List.Perm.Basic
import Harmonia.Library.Ordered

/-!
# JSON documents

What a JSON text says: objects with their fields in the order of the text. A value is a document as a
parser keeps it when it is not asked for a type: the fields of every object are sorted. What is read by
the names of fields does not depend on which of the two it is read from.
-/

namespace Harmonia.Library

/-- A number: a natural one, a negative one, or the bits of a fraction. -/
inductive Number where
  | natural (value : UInt64)
  | negative (value : Int64)
  | fraction (bits : UInt64)
  deriving DecidableEq, Repr

/-- A document, with its strings. -/
inductive Document (σ : Type) where
  | null
  | bool (value : Bool)
  | number (value : Number)
  | string (value : σ)
  | array (items : List (Document σ))
  | object (fields : List (σ × Document σ))

namespace Document

variable {σ α κ : Type}

/-- What is true of a document if it is of what the document is made of is true of every document. -/
@[elab_as_elim]
theorem induct {P : Document σ → Prop} (null : P .null) (bool : ∀ value, P (.bool value))
    (number : ∀ value, P (.number value)) (string : ∀ value, P (.string value))
    (array : ∀ items, (∀ item ∈ items, P item) → P (.array items))
    (object : ∀ fields, (∀ field ∈ fields, P field.2) → P (.object fields)) : ∀ doc, P doc
  | .null => null
  | .bool value => bool value
  | .number value => number value
  | .string value => string value
  | .array items => array items fun item _ => induct null bool number string array object item
  | .object fields => object fields fun field _ => induct null bool number string array object field.2
termination_by doc => sizeOf doc
decreasing_by
  · rename_i member
    have := List.sizeOf_lt_of_mem member
    simp only [Document.array.sizeOf_spec]
    omega
  · rename_i member
    have below := List.sizeOf_lt_of_mem member
    obtain ⟨name, item⟩ := field
    simp only [Prod.mk.sizeOf_spec] at below
    simp only [Document.object.sizeOf_spec]
    omega

/-! ## Values -/

section Value

variable [Ord σ]

mutual

/-- The value of a document. Of two fields with one name the last stands. -/
def value : Document σ → Document σ
  | .null => .null
  | .bool value => .bool value
  | .number value => .number value
  | .string value => .string value
  | .array items => .array (values items)
  | .object fields => .object (gathered (fieldValues fields))

/-- The values of items. -/
def values : List (Document σ) → List (Document σ)
  | [] => []
  | item :: rest => item.value :: values rest

/-- The values of fields. -/
def fieldValues : List (σ × Document σ) → List (σ × Document σ)
  | [] => []
  | (name, item) :: rest => (name, item.value) :: fieldValues rest

end

/-- The values of items, one by one. -/
theorem values_eq (items : List (Document σ)) : values items = items.map value := by
  induction items with
  | nil => rfl
  | cons item rest ih => rw [values, ih, List.map_cons]

/-- The values of fields, one by one. -/
theorem fieldValues_eq (fields : List (σ × Document σ)) :
    fieldValues fields = fields.map fun field => (field.1, field.2.value) := by
  induction fields with
  | nil => rfl
  | cons field rest ih => rw [fieldValues, ih, List.map_cons]

/-- The value of an object. -/
theorem value_object (fields : List (σ × Document σ)) :
    (object fields).value = .object (gathered (fields.map fun field => (field.1, field.2.value))) := by
  rw [value, fieldValues_eq]

/-- The value of an array. -/
theorem value_array (items : List (Document σ)) : (array items).value = .array (items.map value) := by
  rw [value, values_eq]

variable [Std.TransOrd σ] [Std.LawfulEqOrd σ]

/-- A value is its own. -/
theorem value_value (doc : Document σ) : doc.value.value = doc.value := by
  induction doc using induct with
  | null => rfl
  | bool => rfl
  | number => rfl
  | string => rfl
  | array items ih =>
    rw [value_array, value_array, List.map_map]
    exact congrArg array (List.map_congr_left ih)
  | object fields ih =>
    rw [value_object, value_object]
    have same : ((gathered (fields.map fun field => (field.1, field.2.value))).map fun field =>
        (field.1, field.2.value)) = gathered (fields.map fun field => (field.1, field.2.value)) := by
      conv => rhs; rw [← List.map_id (gathered _)]
      apply List.map_congr_left
      intro field member
      obtain ⟨old, inside, rfl⟩ := List.mem_map.mp (mem_of_mem_gathered member)
      exact Prod.ext rfl (ih old inside)
    rw [same, gathered_of_ascending (gathered_ascending _)]

/-- The fields of a value ascend, and are values. -/
theorem fields_of_value {fields : List (σ × Document σ)} (isValue : (object fields).value = .object fields) :
    Ascending Prod.fst fields ∧ ∀ field ∈ fields, field.2.value = field.2 := by
  rw [value_object] at isValue
  have same := Document.object.inj isValue
  constructor
  · exact same ▸ gathered_ascending _
  · intro field member
    obtain ⟨old, -, rfl⟩ := List.mem_map.mp (mem_of_mem_gathered (same.symm ▸ member))
    exact value_value old.2

/-- Ascending fields that are values are those of a value. -/
theorem value_of_fields {fields : List (σ × Document σ)} (ascending : Ascending Prod.fst fields)
    (values : ∀ field ∈ fields, field.2.value = field.2) : (object fields).value = .object fields := by
  have same : (fields.map fun field => (field.1, field.2.value)) = fields := by
    conv => rhs; rw [← List.map_id fields]
    exact List.map_congr_left fun field member => Prod.ext rfl (values field member)
  rw [value_object, same, gathered_of_ascending ascending]

end Value

/-! ## Sources -/

/-- Where a document is read from. -/
inductive Source where
  /-- A text, as it stands. -/
  | text
  /-- The value that was made of one, which is used up. -/
  | value
  /-- A value that outlives what is read of it. -/
  | reference
  deriving DecidableEq, Repr

section Sources

variable [Ord σ]

/-- What is read. -/
def Source.form : Source → Document σ → Document σ
  | .text, doc => doc
  | .value, doc => doc.value
  | .reference, doc => doc.value

variable (source : Source)

@[simp] theorem Source.form_null : source.form (.null : Document σ) = .null := by cases source <;> rfl

@[simp] theorem Source.form_bool (value : Bool) : source.form (.bool value : Document σ) = .bool value := by
  cases source <;> rfl

@[simp] theorem Source.form_number (value : Number) :
    source.form (.number value : Document σ) = .number value := by
  cases source <;> rfl

@[simp] theorem Source.form_string (value : σ) : source.form (.string value) = .string value := by
  cases source <;> rfl

@[simp] theorem Source.form_array (items : List (Document σ)) :
    source.form (.array items) = .array (items.map source.form) := by
  cases source with
  | text => exact congrArg array (List.map_id items).symm
  | value | reference => exact value_array items

/-- What is not null is not read as null. -/
theorem Source.form_ne_null {doc : Document σ} (other : doc ≠ .null) : source.form doc ≠ .null := by
  have kept : doc.value ≠ .null := by
    cases doc with
    | null => exact absurd rfl other
    | object fields => exact value_object fields ▸ nofun
    | array items => exact value_array items ▸ nofun
    | _ => exact nofun
  cases source with
  | text => exact other
  | value | reference => exact kept

/-- A value is read as it is. -/
theorem Source.form_of_value {doc : Document σ} (isValue : doc.value = doc) : source.form doc = doc := by
  cases source with
  | text => rfl
  | value | reference => exact isValue

variable [Std.TransOrd σ] [Std.LawfulEqOrd σ]

/-- The fields that are read of an object are those it has, in some order. -/
theorem Source.form_object {fields : List (σ × Document σ)} (distinct : (fields.map Prod.fst).Nodup) :
    ∃ read, source.form (.object fields) = .object read ∧
      read.Perm (fields.map fun field => (field.1, source.form field.2)) := by
  cases source with
  | text =>
    refine ⟨fields, rfl, ?_⟩
    rw [show (fields.map fun field => (field.1, Source.text.form field.2)) = fields from List.map_id fields]
  | value | reference =>
    refine ⟨_, value_object fields, gathered_perm_self ?_⟩
    rw [List.map_map]
    exact distinct

end Sources

/-! ## Fields -/

section Fields

variable [DecidableEq σ]

/-- The documents of the fields of one name. -/
def select (name : σ) (fields : List (σ × Document σ)) : List (Document σ) :=
  (fields.filter fun field => field.1 = name).map Prod.snd

/-- Read a field that has to be there, once. -/
def required (name : σ) (read : Document σ → Option α) (fields : List (σ × Document σ)) : Option α :=
  match select name fields with
  | [doc] => read doc
  | _ => none

/-- Read a field that may be missing, for a value. -/
def defaulted (name : σ) (absent : α) (read : Document σ → Option α) (fields : List (σ × Document σ)) : Option α :=
  match select name fields with
  | [] => some absent
  | [doc] => read doc
  | _ => none

/-- Null for nothing. -/
def nullable (read : Document σ → Option α) : Document σ → Option (Option α)
  | .null => some none
  | doc => (read doc).map some

omit [DecidableEq σ] in
/-- What is not null is read. -/
theorem nullable_of_ne {read : Document σ → Option α} {doc : Document σ} (other : doc ≠ .null) :
    nullable read doc = (read doc).map some := by
  cases doc with
  | null => exact absurd rfl other
  | _ => rfl

/-- Read a field that may be missing or null. -/
def optional (name : σ) (read : Document σ → Option α) : List (σ × Document σ) → Option (Option α) :=
  defaulted name none (nullable read)

/-- A field of distinct ones is the only one of its name. -/
theorem select_of_mem {fields : List (σ × Document σ)} (distinct : (fields.map Prod.fst).Nodup) {name : σ}
    {doc : Document σ} (member : (name, doc) ∈ fields) : select name fields = [doc] := by
  induction fields with
  | nil => cases member
  | cons field rest ih =>
    obtain ⟨fresh, others⟩ := List.nodup_cons.mp distinct
    rcases List.mem_cons.mp member with rfl | later
    · have none : rest.filter (fun field => field.1 = name) = [] := by
        apply List.filter_eq_nil_iff.mpr
        intro field inside same
        exact fresh (List.mem_map.mpr ⟨field, inside, of_decide_eq_true same⟩)
      have here : ((name, doc) :: rest).filter (fun field => field.1 = name) = [(name, doc)] := by
        rw [List.filter_cons_of_pos (by simp), none]
      rw [select, here]
      rfl
    · have other : field.1 ≠ name := fun same => fresh (List.mem_map.mpr ⟨_, later, same.symm⟩)
      rw [select, List.filter_cons_of_neg (by simp [other])]
      exact ih others later

/-- There are no fields of another name. -/
theorem select_of_not_mem {fields : List (σ × Document σ)} {name : σ} (absent : name ∉ fields.map Prod.fst) :
    select name fields = [] := by
  have none : fields.filter (fun field => field.1 = name) = [] := by
    apply List.filter_eq_nil_iff.mpr
    intro field inside same
    exact absent (List.mem_map.mpr ⟨field, inside, of_decide_eq_true same⟩)
  rw [select, none]
  rfl

/-- A field that is there is read. -/
theorem required_of_select {name : σ} {read : Document σ → Option α} {fields : List (σ × Document σ)}
    {doc : Document σ} (selected : select name fields = [doc]) : required name read fields = read doc := by
  rw [required, selected]

/-- So is one that need not be there. -/
theorem defaulted_of_select {name : σ} {absent : α} {read : Document σ → Option α} {fields : List (σ × Document σ)}
    {doc : Document σ} (selected : select name fields = [doc]) : defaulted name absent read fields = read doc := by
  rw [defaulted, selected]

/-- A field that is not there is taken for its value. -/
theorem defaulted_of_absent {name : σ} {absent : α} {read : Document σ → Option α} {fields : List (σ × Document σ)}
    (selected : select name fields = []) : defaulted name absent read fields = some absent := by
  rw [defaulted, selected]

/-- What is read of a field that may be missing is its value or is read of some field. -/
theorem defaulted_cases {name : σ} {absent value : α} {read : Document σ → Option α}
    {fields : List (σ × Document σ)} (found : defaulted name absent read fields = some value) :
    value = absent ∨ ∃ field ∈ fields, read field.2 = some value := by
  unfold defaulted at found
  split at found
  case h_1 => exact .inl (Option.some.inj found).symm
  case h_2 doc selected =>
    have member : doc ∈ select name fields := selected ▸ List.mem_singleton_self doc
    obtain ⟨field, kept, rfl⟩ := List.mem_map.mp member
    exact .inr ⟨field, List.mem_of_mem_filter kept, found⟩
  case h_3 => cases found

variable [Ord σ] [Std.TransOrd σ] [Std.LawfulEqOrd σ] (source : Source)

omit [Std.TransOrd σ] [Std.LawfulEqOrd σ] in
/-- Fields in some order are read by their names. -/
theorem Source.select_of_perm {fields read : List (σ × Document σ)} (distinct : (fields.map Prod.fst).Nodup)
    (perm : read.Perm (fields.map fun field => (field.1, source.form field.2))) :
    (∀ {name doc}, (name, doc) ∈ fields → select name read = [source.form doc]) ∧
      ∀ {name}, name ∉ fields.map Prod.fst → select name read = [] := by
  have names : (read.map Prod.fst).Perm (fields.map Prod.fst) := by
    have mapped := perm.map Prod.fst
    rw [List.map_map] at mapped
    exact mapped
  constructor
  · intro name doc member
    exact select_of_mem (names.nodup_iff.mpr distinct) (perm.mem_iff.mpr (List.mem_map.mpr ⟨_, member, rfl⟩))
  · exact fun absent => select_of_not_mem fun inside => absent (names.mem_iff.mp inside)

/-- The fields of an object are read by their names, whatever it is read from. -/
theorem Source.select_object {fields : List (σ × Document σ)} (distinct : (fields.map Prod.fst).Nodup) :
    ∃ read, source.form (.object fields) = .object read ∧
      (∀ {name doc}, (name, doc) ∈ fields → select name read = [source.form doc]) ∧
      ∀ {name}, name ∉ fields.map Prod.fst → select name read = [] := by
  obtain ⟨read, same, perm⟩ := source.form_object distinct
  exact ⟨read, same, source.select_of_perm distinct perm⟩

/-- The fields of members, without those that are skipped. -/
def present (members : List (σ × Option (Document σ))) : List (σ × Document σ) :=
  members.filterMap fun member => member.2.map (Prod.mk member.1)

omit [DecidableEq σ] [Ord σ] [Std.TransOrd σ] [Std.LawfulEqOrd σ] in
/-- The fields of members have their names. -/
theorem present_names (members : List (σ × Option (Document σ))) :
    ((present members).map Prod.fst).Sublist (members.map Prod.fst) := by
  induction members with
  | nil => exact List.Sublist.refl _
  | cons member rest ih =>
    obtain ⟨name, doc⟩ := member
    cases doc with
    | none => exact ih.cons name
    | some doc => exact ih.cons_cons name

omit [DecidableEq σ] [Ord σ] [Std.TransOrd σ] [Std.LawfulEqOrd σ] in
/-- A member that is skipped has no field. -/
theorem not_mem_present {members : List (σ × Option (Document σ))} (distinct : (members.map Prod.fst).Nodup)
    {name : σ} (member : (name, none) ∈ members) : name ∉ (present members).map Prod.fst := by
  intro inside
  obtain ⟨field, there, same⟩ := List.mem_map.mp inside
  obtain ⟨other, listed, made⟩ := List.mem_filterMap.mp there
  obtain ⟨doc, some, rfl⟩ := Option.map_eq_some_iff.mp made
  have equal := List.inj_on_of_nodup_map distinct listed member same
  rw [equal] at some
  cases some

/-- The members of an object are read by their names, whatever it is read from. -/
theorem Source.select_present {members : List (σ × Option (Document σ))}
    (distinct : (members.map Prod.fst).Nodup) :
    ∃ read, source.form (.object (present members)) = .object read ∧
      ∀ {name doc}, (name, doc) ∈ members → select name read = (doc.map source.form).toList := by
  obtain ⟨read, same, found, absent⟩ := source.select_object ((present_names members).nodup distinct)
  refine ⟨read, same, ?_⟩
  intro name doc member
  cases doc with
  | none => exact absent (not_mem_present distinct member)
  | some doc => exact found (List.mem_filterMap.mpr ⟨_, member, rfl⟩)

omit [Ord σ] [Std.TransOrd σ] [Std.LawfulEqOrd σ] in
/-- A member that may be null is read. -/
theorem optional_of_select {name : σ} {read : Document σ → Option α} {fields : List (σ × Document σ)}
    {value : Option α} {write : α → Document σ} (selected : select name fields = (value.map write).toList)
    (reads : ∀ item ∈ value, read (write item) = some item ∧ write item ≠ .null) :
    optional name read fields = some value := by
  cases value with
  | none => exact defaulted_of_absent selected
  | some item =>
    obtain ⟨same, other⟩ := reads item rfl
    rw [optional, defaulted_of_select selected, nullable_of_ne other, same]
    rfl

end Fields

/-! ## Items and entries -/

section Entries

/-- Read the items of an array. -/
def readItems (read : Document σ → Option α) : Document σ → Option (List α)
  | .array items => items.mapM read
  | _ => none

/-- Read one entry of a map. -/
def readEntry (key : σ → Option κ) (read : Document σ → Option α) (field : σ × Document σ) : Option (κ × α) :=
  (key field.1).bind fun name => (read field.2).map (Prod.mk name)

/-- Read the fields of an object. -/
def readObject (read : List (σ × Document σ) → Option α) : Document σ → Option α
  | .object fields => read fields
  | _ => none

/-- Read the entries of a map. -/
def readEntries (key : σ → Option κ) (read : Document σ → Option α) : Document σ → Option (List (κ × α)) :=
  readObject fun fields => fields.mapM (readEntry key read)

/-- Read a set. -/
def readSet [Ord α] [Std.TransOrd α] (read : Document σ → Option α) (doc : Document σ) : Option (BTreeSet α) :=
  (readItems read doc).map fun items => items.foldl .insert .empty

/-- Read a map. -/
def readMap [Ord κ] [Std.TransOrd κ] (key : σ → Option κ) (read : Document σ → Option α) (doc : Document σ) :
    Option (BTreeMap κ α) :=
  (readEntries key read doc).map fun entries => entries.foldl .insert .empty

/-- What is read one by one was written one by one. -/
theorem mapM_iff_map {β γ : Type} {read : β → Option γ} {write : γ → β}
    (inverse : ∀ {field entry}, read field = some entry ↔ field = write entry) {fields : List β} {found : List γ} :
    fields.mapM read = some found ↔ fields = found.map write := by
  induction fields generalizing found with
  | nil =>
    cases found with
    | nil => exact iff_of_true rfl rfl
    | cons entry rest => exact iff_of_false nofun nofun
  | cons field rest ih =>
    rw [List.mapM_cons]
    constructor
    · intro all
      obtain ⟨first, here, all⟩ := Option.bind_eq_some_iff.mp all
      obtain ⟨others, later, all⟩ := Option.bind_eq_some_iff.mp all
      cases all
      rw [inverse.mp here, ih.mp later, List.map_cons]
    · intro same
      cases found with
      | nil => cases same
      | cons entry others =>
        obtain ⟨here, later⟩ := List.cons.inj same
        rw [inverse.mpr here, ih.mpr later]
        rfl

/-- What is read one by one is read of something. -/
theorem mem_of_mapM {β γ : Type} {read : β → Option γ} {fields : List β} {found : List γ}
    (all : fields.mapM read = some found) : ∀ entry ∈ found, ∃ field ∈ fields, read field = some entry := by
  induction fields generalizing found with
  | nil =>
    cases all
    exact nofun
  | cons field rest ih =>
    rw [List.mapM_cons] at all
    obtain ⟨first, here, all⟩ := Option.bind_eq_some_iff.mp all
    obtain ⟨others, later, all⟩ := Option.bind_eq_some_iff.mp all
    cases all
    intro entry member
    rcases List.mem_cons.mp member with rfl | member
    · exact ⟨field, List.mem_cons_self, here⟩
    · obtain ⟨other, listed, same⟩ := ih later entry member
      exact ⟨other, List.mem_cons_of_mem _ listed, same⟩

variable [Ord σ]

/-- The items of an array are read. -/
theorem Source.readItems_array (source : Source) {read : Document σ → Option α} {write : α → Document σ} {items : List α}
    (reads : ∀ item ∈ items, read (source.form (write item)) = some item) :
    readItems read (source.form (.array (items.map write))) = some items := by
  rw [form_array, readItems, List.map_map]
  induction items with
  | nil => rfl
  | cons item rest ih =>
    rw [List.map_cons, List.mapM_cons]
    show (read (source.form (write item)) >>= _) = _
    rw [reads item List.mem_cons_self, ih fun other member => reads other (List.mem_cons_of_mem _ member)]
    rfl

/-- A set is read. -/
theorem Source.readSet_array (source : Source) [Ord α] [Std.TransOrd α] {read : Document σ → Option α} {write : α → Document σ}
    {set : BTreeSet α} (reads : ∀ item ∈ set.items, read (source.form (write item)) = some item) :
    readSet read (source.form (.array (set.items.map write))) = some set := by
  rw [readSet, source.readItems_array reads]
  exact congrArg some (BTreeSet.insert_ascending set.items .empty set rfl)

omit [Ord σ] in
/-- Entries are read one by one. -/
theorem mapM_perm {β γ : Type} {read : β → Option γ} {fields : List β} {entries : List γ} {written : γ → β}
    (perm : fields.Perm (entries.map written)) (reads : ∀ entry ∈ entries, read (written entry) = some entry) :
    ∃ found, fields.mapM read = some found ∧ found.Perm entries := by
  have all (list : List γ) (inside : ∀ entry ∈ list, entry ∈ entries) :
      (list.map written).mapM read = some list := by
    induction list with
    | nil => rfl
    | cons entry rest ih =>
      rw [List.map_cons, List.mapM_cons, reads entry (inside entry List.mem_cons_self),
        ih fun other member => inside other (List.mem_cons_of_mem _ member)]
      rfl
  obtain ⟨found, same, order⟩ : Relation.Comp (· = List.map written ·) List.Perm fields entries := by
    rw [List.eq_map_comp_perm]
    exact perm
  exact ⟨found, by rw [same]; exact all found fun entry member => order.mem_iff.mp member, order⟩

variable [Std.TransOrd σ] [Std.LawfulEqOrd σ] (source : Source)

/-- The entries of a map are read, in some order. -/
theorem Source.readEntries_object {key : σ → Option κ} {read : Document σ → Option α} {name : κ → σ}
    {write : α → Document σ} {entries : List (κ × α)} (distinct : (entries.map fun entry => name entry.1).Nodup)
    (keys : ∀ entry ∈ entries, key (name entry.1) = some entry.1)
    (reads : ∀ entry ∈ entries, read (source.form (write entry.2)) = some entry.2) :
    ∃ found, readEntries key read (source.form (.object (entries.map fun entry => (name entry.1, write entry.2)))) =
      some found ∧ found.Perm entries := by
  have distinct' : ((entries.map fun entry => (name entry.1, write entry.2)).map Prod.fst).Nodup := by
    rw [List.map_map]
    exact distinct
  obtain ⟨fields, same, perm⟩ := source.form_object distinct'
  rw [List.map_map] at perm
  rw [same]
  refine mapM_perm perm fun entry member => ?_
  show readEntry key read (name entry.1, source.form (write entry.2)) = _
  rw [readEntry, keys entry member, reads entry member]
  rfl

/-- A map is read. -/
theorem Source.readMap_object [Ord κ] [Std.TransOrd κ] [Std.LawfulEqOrd κ] {key : σ → Option κ}
    {read : Document σ → Option α} {name : κ → σ} {write : α → Document σ} {map : BTreeMap κ α}
    (keys : ∀ entry ∈ map.entries, key (name entry.1) = some entry.1)
    (reads : ∀ entry ∈ map.entries, read (source.form (write entry.2)) = some entry.2) :
    readMap key read (source.form (.object (map.entries.map fun entry => (name entry.1, write entry.2)))) =
      some map := by
  have distinct : (map.entries.map fun entry => name entry.1).Nodup := by
    have keyed : (map.entries.map Prod.fst).Nodup := map.sorted.keys_nodup
    rw [show (map.entries.map fun entry => name entry.1) = (map.entries.map Prod.fst).map name by
      rw [List.map_map]; rfl]
    apply List.Nodup.map_on _ keyed
    intro left first right second same
    obtain ⟨entry, inside, rfl⟩ := List.mem_map.mp first
    obtain ⟨entry', inside', rfl⟩ := List.mem_map.mp second
    have equal := keys entry inside
    rw [same, keys entry' inside'] at equal
    exact (Option.some.inj equal).symm
  obtain ⟨found, read', perm⟩ := source.readEntries_object distinct keys reads
  rw [readMap, read']
  refine congrArg some (BTreeMap.ext ?_)
  rw [BTreeMap.foldl_insert_entries, gathered_perm perm ((perm.map Prod.fst).nodup_iff.mpr map.sorted.keys_nodup),
    gathered_of_ascending map.sorted]

end Entries

end Document

end Harmonia.Library
