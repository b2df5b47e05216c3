import Harmonia.Nar.CaseHack

/-!
# The case hack there and back

Restoring a tree on a case-insensitive file system and dumping it again gives its events if and only
if they were in order to begin with and the suffix of the case hack is on no name that keeps its name.
A name that is hacked gets a suffix of its own, behind whatever it had, and the dumper takes off the
last one. A name that is not hacked and has a suffix loses it, and then the names of the dump are
shorter altogether.
-/

namespace Harmonia.Nar

open Fs Library

/-! ## Entries put anywhere -/

/-- The names with another one listed somewhere. -/
theorem names_insertAt (name : Bytes) (node : Node) : ∀ (slot : Nat) (entries : Entries),
    (insertAt name node slot entries).names.Perm (name :: entries.names)
  | 0, _ => List.Perm.refl _
  | _ + 1, .nil => List.Perm.refl _
  | slot + 1, .cons first _ rest =>
    ((names_insertAt name node slot rest).cons first).trans (List.Perm.swap name first rest.names)

/-- Entries with another one listed somewhere are legal. -/
theorem insertAt_legal {name : Bytes} {node : Node} (legal : LegalName name) (inner : node.Legal) :
    ∀ {slot : Nat} {entries : Entries}, name ∉ entries.names → entries.Legal →
      (insertAt name node slot entries).Legal
  | 0, _, fresh, others => ⟨legal, fresh, inner, others⟩
  | _ + 1, .nil, fresh, others => ⟨legal, fresh, inner, others⟩
  | slot + 1, .cons first other rest, fresh, others => by
    refine ⟨others.1, ?_, others.2.2.1,
      insertAt_legal legal inner (fun old => fresh (.tail _ old)) others.2.2.2⟩
    intro member
    rcases List.mem_cons.mp ((names_insertAt name node slot rest).mem_iff.mp member) with rfl | old
    · exact fresh List.mem_cons_self
    · exact others.2.1 old

/-- Entries with another one listed somewhere are plain. -/
theorem insertAt_plain {name : Bytes} {node : Node} (inner : node.Plain) :
    ∀ {slot : Nat} {entries : Entries}, entries.Plain → (insertAt name node slot entries).Plain
  | 0, _, others => ⟨inner, others⟩
  | _ + 1, .nil, others => ⟨inner, others⟩
  | _ + 1, .cons _ _ _, others => ⟨others.1, insertAt_plain inner others.2⟩

/-- Entries with another one listed somewhere are apart. -/
theorem insertAt_apart {key : Bytes → Bytes} {name : Bytes} {node : Node} (inner : node.Apart key) :
    ∀ {slot : Nat} {entries : Entries}, (∀ other ∈ entries.names, key other ≠ key name) →
      entries.Apart key → (insertAt name node slot entries).Apart key
  | 0, _, fresh, others => ⟨fresh, inner, others⟩
  | _ + 1, .nil, fresh, others => ⟨fresh, inner, others⟩
  | slot + 1, .cons first other rest, fresh, others => by
    refine ⟨?_, others.2.1, insertAt_apart inner (fun old member => fresh old (.tail _ member))
      others.2.2⟩
    intro old member
    rcases List.mem_cons.mp ((names_insertAt name node slot rest).mem_iff.mp member) with rfl | old'
    · exact (fresh first List.mem_cons_self).symm
    · exact others.1 old old'

/-- Of two different keys one is less. -/
theorem less_or_less {left right : Bytes} (apart : left ≠ right) :
    compare left right = .lt ↔ ¬ compare right left = .lt := by
  rw [@Std.OrientedCmp.eq_swap _ compare _ right left]
  cases compared : compare left right with
  | lt => simp
  | eq => exact absurd (Std.LawfulEqOrd.eq_of_compare compared) apart
  | gt => simp

/-- What is not less than a key is above whatever that is above. -/
theorem less_of_not_less {low mid high : Bytes} (above : ¬ compare mid low = .lt)
    (less : compare mid high = .lt) : compare low high = .lt := by
  by_cases same : mid = low
  · exact same ▸ less
  · exact Std.TransCmp.lt_trans ((less_or_less (Ne.symm same)).mpr above) less

/-- Which of two entries with different keys is put at its place first does not matter. -/
theorem place_comm {key : Bytes → Bytes} {left right : Bytes} {node other : Node}
    (apart : key left ≠ key right) (entries : Entries) :
    (entries.place key left node).place key right other =
      (entries.place key right other).place key left node := by
  cases entries with
  | nil =>
    by_cases less : compare (key left) (key right) = .lt
    · have more := (less_or_less apart).mp less
      simp only [Entries.place, if_pos less, if_neg more]
    · have more := (less_or_less (Ne.symm apart)).mpr less
      simp only [Entries.place, if_neg less, if_pos more]
  | cons first node' rest =>
    by_cases low : compare (key first) (key left) = .lt
    · by_cases low' : compare (key first) (key right) = .lt
      · simp only [Entries.place, if_pos low, if_pos low', place_comm apart rest]
      · have less := less_of_not_less low' low
        simp only [Entries.place, if_pos low, if_neg low', if_pos less]
    · by_cases low' : compare (key first) (key right) = .lt
      · have less := less_of_not_less low low'
        simp only [Entries.place, if_neg low, if_pos low', if_pos less]
      · by_cases less : compare (key left) (key right) = .lt
        · have more := (less_or_less apart).mp less
          simp only [Entries.place, if_neg low, if_neg low', if_pos less, if_neg more]
        · have more := (less_or_less (Ne.symm apart)).mpr less
          simp only [Entries.place, if_neg low, if_neg low', if_neg less, if_pos more]

/-- Where an entry is listed does not matter once the entries are sorted. -/
theorem sorted_insertAt {key : Bytes → Bytes} {name : Bytes} {node : Node} :
    ∀ {slot : Nat} {entries : Entries}, (∀ other ∈ entries.names, key other ≠ key name) →
      (insertAt name node slot entries).sorted key =
        (entries.sorted key).place key name (node.sorted key)
  | 0, _, _ => rfl
  | _ + 1, .nil, _ => rfl
  | slot + 1, .cons first other rest, fresh => by
    have later := @sorted_insertAt key name node slot rest
      fun old member => fresh old (.tail _ member)
    rw [insertAt, Entries.sorted, later, Entries.sorted]
    exact place_comm (fresh first List.mem_cons_self).symm (rest.sorted key)

/-! ## The length of all names -/

section Weight

variable (rename : Bytes → Bytes)

mutual

/-- The length of all names below a node. -/
def nameWeight : Node → Nat
  | .directory entries => entriesWeight entries
  | .file _ _ => 0
  | .symlink _ => 0
  | .special _ => 0

/-- The length of all names in a directory and below it. -/
def entriesWeight : Entries → Nat
  | .nil => 0
  | .cons name node rest => (rename name).length + nameWeight node + entriesWeight rest

end

/-- The length of the name of an event. -/
def eventWeight : NarEvent Bytes → Nat
  | .file name _ _ _ => name.length
  | .symlink name _ => name.length
  | .startDirectory name => name.length
  | .endDirectory => 0

variable {rename}

mutual

/-- The names of the events are the names of the tree. -/
theorem weight_events {name : Bytes} : ∀ {node : Node}, node.Plain →
    ((contentEvents rename name node).map eventWeight).sum = name.length + nameWeight rename node
  | .file _ _, _ => rfl
  | .symlink _, _ => rfl
  | .special _, plain => plain.elim
  | .directory entries, plain => by
    rw [contentEvents, List.map_cons, List.map_append, List.sum_cons, List.sum_append,
      weight_entries plain, nameWeight]
    rfl

/-- The names of the events are the names of the entries. -/
theorem weight_entries : ∀ {entries : Entries}, entries.Plain →
    ((entriesContentEvents rename entries).map eventWeight).sum = entriesWeight rename entries
  | .nil, _ => rfl
  | .cons name node rest, plain => by
    rw [entriesContentEvents, List.map_append, List.sum_append, weight_events plain.1,
      weight_entries plain.2, entriesWeight]

end

/-- An entry put at its place adds its names. -/
theorem weight_place {key : Bytes → Bytes} (name : Bytes) (node : Node)
    (entries : Entries) :
    entriesWeight rename (entries.place key name node) =
      (rename name).length + nameWeight rename node + entriesWeight rename entries := by
  cases entries with
  | nil => rfl
  | cons first other rest =>
    rw [Entries.place]
    split
    · rw [entriesWeight, weight_place name node rest, entriesWeight]
      omega
    · rfl

mutual

/-- Sorting keeps the names. -/
theorem weight_sorted {key : Bytes → Bytes} : ∀ node : Node,
    nameWeight rename (node.sorted key) = nameWeight rename node
  | .file _ _ => rfl
  | .symlink _ => rfl
  | .special _ => rfl
  | .directory entries => entriesWeight_sorted entries

/-- Sorting keeps the names. -/
theorem entriesWeight_sorted {key : Bytes → Bytes} : ∀ entries : Entries,
    entriesWeight rename (entries.sorted key) = entriesWeight rename entries
  | .nil => rfl
  | .cons name node rest => by
    rw [Entries.sorted, weight_place, weight_sorted node, entriesWeight_sorted rest, entriesWeight]

end

/-- An entry listed somewhere adds its names. -/
theorem weight_insertAt (name : Bytes) (node : Node) : ∀ (slot : Nat) (entries : Entries),
    entriesWeight rename (insertAt name node slot entries) =
      (rename name).length + nameWeight rename node + entriesWeight rename entries
  | 0, _ => rfl
  | _ + 1, .nil => rfl
  | slot + 1, .cons first other rest => by
    rw [insertAt, entriesWeight, weight_insertAt name node slot rest, entriesWeight]
    omega

end Weight

/-! ## Names that are hacked -/

/-- What a map has under a key after an insertion. -/
theorem lookup_inserted (met : CaseEntries) (key other : Bytes) (idx : Nat) :
    (inserted met (key, idx)).lookup other = if other = key then some idx else met.lookup other := by
  induction met with
  | nil =>
    rw [inserted, place, List.lookup_cons]
    by_cases same : other = key
    · rw [if_pos same, same, beq_self_eq_true]
    · rw [if_neg same, beq_eq_false_iff_ne.mpr same]
  | cons first met ih =>
    rw [inserted] at ih
    obtain ⟨name, count⟩ := first
    rw [inserted, place]
    dsimp only
    by_cases same : other = key
    · rw [if_pos same]
      cases order : compare key name with
      | lt => rw [List.lookup_cons, same, beq_self_eq_true]
      | eq =>
        have equal : key = name := Std.LawfulEqOrd.eq_of_compare order
        rw [List.lookup_cons, same, equal, beq_self_eq_true]
      | gt =>
        have apart : other ≠ name := by
          rintro rfl
          rw [← same, Std.ReflOrd.compare_self] at order
          cases order
        rw [List.lookup_cons, beq_eq_false_iff_ne.mpr apart, ih, if_pos same]
    · rw [if_neg same]
      cases order : compare key name with
      | lt => rw [List.lookup_cons, beq_eq_false_iff_ne.mpr same]
      | eq =>
        have equal : key = name := Std.LawfulEqOrd.eq_of_compare order
        have apart : other ≠ name := fun equal' => same (equal'.trans equal.symm)
        rw [List.lookup_cons, List.lookup_cons, beq_eq_false_iff_ne.mpr apart]
      | gt =>
        rw [List.lookup_cons, List.lookup_cons, ih, if_neg same]

section Hacked

variable (lower : Bytes → Bytes)

/-- What is left of a name. -/
def caseKey (name : Bytes) : Bytes := lower (Utf8.lossy name)

mutual

/-- A name with the suffix comes behind one that differs from it only in case, in every directory. -/
def Hacked : Node → Prop
  | .directory entries => EntriesHacked [] entries
  | _ => True

/-- A name with the suffix comes behind one that differs from it only in case, and so below. -/
def EntriesHacked (met : List Bytes) : Entries → Prop
  | .nil => True
  | .cons name node rest =>
    (rfind caseHackSuffix name ≠ none → caseKey lower name ∈ met) ∧ Hacked node ∧
      EntriesHacked (caseKey lower name :: met) rest

end

variable {lower}

/-- What a name is hacked to, and what is met then. -/
theorem hackName_cases {met met' : CaseEntries} {name hacked : Bytes}
    (done : hackName lower met name = some (hacked, met')) :
    ∃ idx, met' = inserted met (caseKey lower name, idx) ∧
      (met.lookup (caseKey lower name) = none ∧ hacked = name ∨
        (met.lookup (caseKey lower name)).isSome = true ∧ hacked = hackedName name idx) := by
  unfold hackName at done
  simp only at done
  cases found : met.lookup (lower (Utf8.lossy name)) with
  | none =>
    rw [found] at done
    obtain ⟨rfl, rfl⟩ := Prod.mk.inj (Option.some.inj done)
    exact ⟨0, rfl, .inl ⟨found, rfl⟩⟩
  | some idx =>
    simp only [found, Option.ite_none_right_eq_some] at done
    obtain ⟨rfl, rfl⟩ := Prod.mk.inj (Option.some.inj done.2)
    refine ⟨idx + 1, rfl, .inr ⟨?_, rfl⟩⟩
    rw [caseKey, found]
    rfl

/-- The names met are these. -/
def Met (met : CaseEntries) (keys : List Bytes) : Prop :=
  ∀ key, (met.lookup key).isSome = true ↔ key ∈ keys

/-- One more name is met. -/
theorem Met.insert {met : CaseEntries} {keys : List Bytes} (known : Met met keys) (key : Bytes)
    (idx : Nat) : Met (inserted met (key, idx)) (key :: keys) := by
  intro other
  rw [lookup_inserted, List.mem_cons]
  by_cases same : other = key
  · simp [same]
  · rw [if_neg same, known other]
    simp [same]

/-- A hacked name loses its suffix again; a name that keeps its name and has none does too. -/
theorem hackName_removes {met met' : CaseEntries} {keys : List Bytes} (known : Met met keys)
    {name hacked : Bytes} (done : hackName lower met name = some (hacked, met')) :
    (removeCaseHack hacked).length ≤ name.length ∧
      ((removeCaseHack hacked).length = name.length ↔
        (rfind caseHackSuffix name ≠ none → caseKey lower name ∈ keys)) ∧
      ((rfind caseHackSuffix name ≠ none → caseKey lower name ∈ keys) → removeCaseHack hacked = name) := by
  obtain ⟨idx, _, kept | changed⟩ := hackName_cases done
  · obtain ⟨unmet, rfl⟩ := kept
    have absent : caseKey lower hacked ∉ keys := by
      rw [← known, unmet]
      exact Bool.false_ne_true
    obtain ⟨shorter, same⟩ := removeCaseHack_length hacked
    refine ⟨shorter, ?_, ?_⟩
    · rw [same]
      constructor
      · exact fun none some => absurd none some
      · intro implies
        by_contra some
        exact absent (implies some)
    · intro implies
      have none : rfind caseHackSuffix hacked = none := by
        by_contra some
        exact absent (implies some)
      rw [removeCaseHack, none]
  · obtain ⟨found, rfl⟩ := changed
    have member := (known _).mp found
    rw [removeCaseHack_hacked]
    exact ⟨Nat.le_refl _, iff_of_true rfl fun _ => member, fun _ => rfl⟩

end Hacked

section Restored

variable {fs : CaseFs} {lower : Bytes → Bytes}

/-- The steps of restoring an entry. -/
theorem entriesRestored_cons {met met' : CaseEntries} {made made' : Entries} {name : Bytes}
    {node : Node} {rest : Entries}
    (done : entriesRestored fs lower met made (.cons name node rest) = some (met', made')) :
    ∃ hacked idx node', hackName lower met name =
        some (hacked, inserted met (caseKey lower name, idx)) ∧
      restored fs lower node = some node' ∧
      (∀ other ∈ made.names, fs.fold other ≠ fs.fold hacked) ∧
      entriesRestored fs lower (inserted met (caseKey lower name, idx))
        (insertAt hacked node' (fs.slot made hacked) made) rest = some (met', made') := by
  obtain ⟨⟨hacked, met''⟩, hacks, done⟩ := Option.bind_eq_some_iff.mp done
  obtain ⟨node', inner, done⟩ := Option.bind_eq_some_iff.mp done
  obtain ⟨made'', created, done⟩ := Option.bind_eq_some_iff.mp done
  obtain ⟨idx, rfl, _⟩ := hackName_cases hacks
  unfold CaseFs.create at created
  split at created
  case isTrue => cases created
  case isFalse fresh =>
    cases created
    refine ⟨hacked, idx, node', hacks, inner, ?_, done⟩
    exact fun other member same => fresh ⟨other, member, same⟩

mutual

/-- What is restored is a legal and plain tree, and the file system tells its names apart. -/
theorem restored_sound : ∀ {node node' : Node}, node.Legal → restored fs lower node = some node' →
    node'.Legal ∧ node'.Plain ∧ node'.Apart fs.fold
  | .file _ _, _, _, done => by
    cases done
    exact ⟨trivial, trivial, trivial⟩
  | .symlink _, _, _, done => by
    cases done
    exact ⟨trivial, trivial, trivial⟩
  | .special _, _, _, done => by cases done
  | .directory entries, _, legal, done => by
    obtain ⟨⟨met, made⟩, inside, rfl⟩ := Option.map_eq_some_iff.mp done
    exact entriesRestored_sound legal inside ⟨trivial, trivial, trivial⟩

/-- What is restored in a directory is legal and plain, and the file system tells its names apart. -/
theorem entriesRestored_sound {met met' : CaseEntries} {made made' : Entries} :
    ∀ {entries : Entries}, entries.Legal →
      entriesRestored fs lower met made entries = some (met', made') →
      made.Legal ∧ made.Plain ∧ made.Apart fs.fold → made'.Legal ∧ made'.Plain ∧ made'.Apart fs.fold
  | .nil, _, done, before => by
    cases done
    exact before
  | .cons name node rest, legal, done, ⟨legal', plain, apart⟩ => by
    obtain ⟨hacked, idx, node', hacks, inner, fresh, later⟩ := entriesRestored_cons done
    obtain ⟨inLegal, inPlain, inApart⟩ := restored_sound legal.2.2.1 inner
    have absent : hacked ∉ made.names := fun member => fresh hacked member rfl
    exact entriesRestored_sound legal.2.2.2 later
      ⟨insertAt_legal (CaseFs.hackName_legal legal.1 hacks) inLegal absent legal',
        insertAt_plain inPlain plain, insertAt_apart inApart fresh apart⟩

end

mutual

/-- The names of what is restored are not longer without their suffixes than the names that were to
be restored, and shorter if one was not hacked that had a suffix. -/
theorem restored_weight : ∀ {node node' : Node}, restored fs lower node = some node' →
    nameWeight removeCaseHack node' ≤ nameWeight id node ∧
      (nameWeight removeCaseHack node' = nameWeight id node → Hacked lower node)
  | .file _ _, _, done => by
    cases done
    exact ⟨Nat.le_refl _, fun _ => trivial⟩
  | .symlink _, _, done => by
    cases done
    exact ⟨Nat.le_refl _, fun _ => trivial⟩
  | .special _, _, done => by cases done
  | .directory entries, _, done => by
    obtain ⟨⟨met, made⟩, inside, rfl⟩ := Option.map_eq_some_iff.mp done
    have none : Met [] [] := fun key => by simp
    obtain ⟨le, hacked⟩ := entriesRestored_weight none inside
    rw [entriesWeight, Nat.zero_add] at le hacked
    exact ⟨le, hacked⟩

/-- The names of what is restored in a directory. -/
theorem entriesRestored_weight {met met' : CaseEntries} {keys : List Bytes} {made made' : Entries}
    (known : Met met keys) : ∀ {entries : Entries},
      entriesRestored fs lower met made entries = some (met', made') →
      entriesWeight removeCaseHack made' ≤
          entriesWeight removeCaseHack made + entriesWeight id entries ∧
        (entriesWeight removeCaseHack made' =
          entriesWeight removeCaseHack made + entriesWeight id entries →
            EntriesHacked lower keys entries)
  | .nil, done => by
    cases done
    exact ⟨Nat.le_refl _, fun _ => trivial⟩
  | .cons name node rest, done => by
    obtain ⟨hacked, idx, node', hacks, inner, _, later⟩ := entriesRestored_cons done
    obtain ⟨shorter, exact_, _⟩ := hackName_removes known hacks
    obtain ⟨inLe, inHacked⟩ := restored_weight inner
    obtain ⟨le, others⟩ := entriesRestored_weight (known.insert _ idx) later
    rw [weight_insertAt] at le others
    have total : entriesWeight id (.cons name node rest) =
        name.length + nameWeight id node + entriesWeight id rest := rfl
    rw [total]
    refine ⟨by omega, ?_⟩
    intro same
    exact ⟨exact_.mp (by omega), inHacked (by omega), others (by omega)⟩

end

mutual

/-- Without their suffixes, the names of what is restored are the names that were to be restored, and
apart like them. -/
theorem restored_apart : ∀ {node node' : Node}, node.Legal → Hacked lower node →
    restored fs lower node = some node' → node'.Apart removeCaseHack
  | .file _ _, _, _, _, done => by
    cases done
    trivial
  | .symlink _, _, _, _, done => by
    cases done
    trivial
  | .special _, _, _, _, done => by cases done
  | .directory entries, _, legal, hacked, done => by
    obtain ⟨⟨met, made⟩, inside, rfl⟩ := Option.map_eq_some_iff.mp done
    have none : Met [] [] := fun key => by simp
    exact entriesRestored_apart none legal hacked inside trivial (fun old member => by cases member)

/-- Without their suffixes, the names of what is restored in a directory are apart. -/
theorem entriesRestored_apart {met met' : CaseEntries} {keys : List Bytes} {made made' : Entries}
    (known : Met met keys) : ∀ {entries : Entries}, entries.Legal → EntriesHacked lower keys entries →
      entriesRestored fs lower met made entries = some (met', made') →
      made.Apart removeCaseHack → (∀ old ∈ made.names, removeCaseHack old ∉ entries.names) →
      made'.Apart removeCaseHack
  | .nil, _, _, done, apart, _ => by
    cases done
    exact apart
  | .cons name node rest, legal, hackeds, done, apart, fresh => by
    obtain ⟨hacked, idx, node', hacks, inner, _, later⟩ := entriesRestored_cons done
    have removed : removeCaseHack hacked = name := (hackName_removes known hacks).2.2 hackeds.1
    have inApart := restored_apart legal.2.2.1 hackeds.2.1 inner
    have other : ∀ old ∈ made.names, removeCaseHack old ≠ removeCaseHack hacked := by
      intro old member same
      rw [removed] at same
      exact fresh old member (same ▸ List.mem_cons_self)
    refine entriesRestored_apart (known.insert _ idx) legal.2.2.2 hackeds.2.2 later
      (insertAt_apart inApart other apart) ?_
    intro old member
    rcases List.mem_cons.mp ((names_insertAt hacked node' _ made).mem_iff.mp member) with rfl | old'
    · rw [removed]
      exact legal.2.1
    · exact fun listed => fresh old old' (List.mem_cons_of_mem _ listed)

end

/-- An entry behind all others comes last. -/
theorem events_place {key rename : Bytes → Bytes} {name : Bytes} {node : Node} :
    ∀ {entries : Entries}, (∀ old ∈ entries.names, compare (key old) (key name) = .lt) →
      entriesContentEvents rename (entries.place key name node) =
        entriesContentEvents rename entries ++ contentEvents rename (rename name) node
  | .nil, _ => by
    show contentEvents rename (rename name) node ++ [] = [] ++ _
    rw [List.append_nil, List.nil_append]
  | .cons first other rest, less => by
    rw [Entries.place, if_pos (less first List.mem_cons_self), entriesContentEvents,
      events_place fun old member => less old (List.mem_cons_of_mem _ member), entriesContentEvents,
      List.append_assoc]

mutual

/-- What is restored of a hacked tree in order has its events. -/
theorem restored_events : ∀ {node node' : Node}, Hacked lower node → node.Ascends id →
    restored fs lower node = some node' → ∀ name,
      contentEvents removeCaseHack name (node'.sorted removeCaseHack) = contentEvents id name node
  | .file mode contents, _, _, _, done, _ => by
    cases done
    have bit : ((if mode &&& 0o100 == 0o100 then 0o777 else 0o666 : UInt32) &&& 0o100 == 0o100) =
        (mode &&& 0o100 == 0o100) := by
      cases mode &&& 0o100 == 0o100 <;> rfl
    rw [Node.sorted, contentEvents, contentEvents, bit]
  | .symlink _, _, _, _, done, _ => by
    cases done
    rfl
  | .special _, _, _, _, done, _ => by cases done
  | .directory entries, _, hacked, ascends, done, name => by
    obtain ⟨⟨met, made⟩, inside, rfl⟩ := Option.map_eq_some_iff.mp done
    have none : Met [] [] := fun key => by simp
    have same := entriesRestored_events none hacked ascends inside (fun old member => by cases member)
    rw [Node.sorted, contentEvents, contentEvents, same]
    rfl

/-- What is restored of hacked entries in order has their events. -/
theorem entriesRestored_events {met met' : CaseEntries} {keys : List Bytes} {made made' : Entries}
    (known : Met met keys) : ∀ {entries : Entries}, EntriesHacked lower keys entries →
      entries.Ascends id → entriesRestored fs lower met made entries = some (met', made') →
      (∀ old ∈ made.names, ∀ new ∈ entries.names, compare (removeCaseHack old) new = .lt) →
      entriesContentEvents removeCaseHack (made'.sorted removeCaseHack) =
        entriesContentEvents removeCaseHack (made.sorted removeCaseHack) ++
          entriesContentEvents id entries
  | .nil, _, _, done, _ => by
    cases done
    exact (List.append_nil _).symm
  | .cons name node rest, hackeds, ascends, done, less => by
    obtain ⟨hacked, idx, node', hacks, inner, _, later⟩ := entriesRestored_cons done
    have removed : removeCaseHack hacked = name := (hackName_removes known hacks).2.2 hackeds.1
    have below : ∀ old ∈ made.names, compare (removeCaseHack old) (removeCaseHack hacked) = .lt := by
      intro old member
      rw [removed]
      exact less old member name List.mem_cons_self
    have apart : ∀ old ∈ made.names, removeCaseHack old ≠ removeCaseHack hacked := by
      intro old member same
      have order := below old member
      rw [same, Std.ReflOrd.compare_self] at order
      cases order
    have below' : ∀ old ∈ (made.sorted removeCaseHack).names,
        compare (removeCaseHack old) (removeCaseHack hacked) = .lt :=
      fun old member => below old ((Entries.names_sorted made).mem_iff.mp member)
    rw [entriesRestored_events (known.insert _ idx) hackeds.2.2 ascends.2.2 later ?_,
      sorted_insertAt apart, events_place below', removed,
      restored_events hackeds.2.1 ascends.2.1 inner, entriesContentEvents, List.append_assoc]
    · rfl
    · intro old member new listed
      rcases List.mem_cons.mp ((names_insertAt hacked node' _ made).mem_iff.mp member) with rfl | old'
      · rw [removed]
        exact ascends.1 new listed
      · exact less old old' new (List.mem_cons_of_mem _ listed)

end

end Restored

/-! ## The order of events -/

section Order

variable {left right : Bytes → Bytes}

mutual

/-- Events tell the order of the names: if those of one tree are in order, so are those of another
one with the same events. -/
theorem ascends_of_events {name other : Bytes} {more more' : List (NarEvent Bytes)} :
    ∀ {node node' : Node}, node.Plain → node'.Plain →
      contentEvents left name node ++ more = contentEvents right other node' ++ more' →
      name = other ∧ more = more' ∧ (node.Ascends left → node'.Ascends right)
  | .special _, _, plain, _, _ => plain.elim
  | .file _ _, node', _, plain, same => by
    cases node' with
    | file mode contents =>
      obtain ⟨event, rest⟩ := List.cons.inj same
      exact ⟨(NarEvent.file.inj event).1, rest, fun _ => trivial⟩
    | symlink target => cases (List.cons.inj same).1
    | directory entries => cases (List.cons.inj same).1
    | special mode => exact plain.elim
  | .symlink _, node', _, plain, same => by
    cases node' with
    | file mode contents => cases (List.cons.inj same).1
    | symlink target =>
      obtain ⟨event, rest⟩ := List.cons.inj same
      exact ⟨(NarEvent.symlink.inj event).1, rest, fun _ => trivial⟩
    | directory entries => cases (List.cons.inj same).1
    | special mode => exact plain.elim
  | .directory entries, node', plain, plain', same => by
    cases node' with
    | file mode contents => cases (List.cons.inj same).1
    | symlink target => cases (List.cons.inj same).1
    | special mode => exact plain'.elim
    | directory entries' =>
      rw [contentEvents, contentEvents, List.cons_append, List.cons_append, List.append_assoc,
        List.append_assoc] at same
      obtain ⟨event, rest⟩ := List.cons.inj same
      obtain ⟨_, tail, ascends⟩ := ascends_of_entries plain plain' rest
      exact ⟨NarEvent.startDirectory.inj event, tail, ascends⟩

/-- Events tell the order of the names in a directory. -/
theorem ascends_of_entries {more more' : List (NarEvent Bytes)} :
    ∀ {entries entries' : Entries}, entries.Plain → entries'.Plain →
      entriesContentEvents left entries ++ .endDirectory :: more =
        entriesContentEvents right entries' ++ .endDirectory :: more' →
      entries.names.map left = entries'.names.map right ∧ more = more' ∧
        (entries.Ascends left → entries'.Ascends right)
  | .nil, .nil, _, _, same => ⟨rfl, (List.cons.inj same).2, fun _ => trivial⟩
  | .nil, .cons _ node' _, _, plain', same => by
    cases node' with
    | file mode contents => cases (List.cons.inj same).1
    | symlink target => cases (List.cons.inj same).1
    | directory entries => cases (List.cons.inj same).1
    | special mode => exact plain'.1.elim
  | .cons _ node _, .nil, plain, _, same => by
    cases node with
    | file mode contents => cases (List.cons.inj same).1
    | symlink target => cases (List.cons.inj same).1
    | directory entries => cases (List.cons.inj same).1
    | special mode => exact plain.1.elim
  | .cons name node rest, .cons name' node' rest', plain, plain', same => by
    rw [entriesContentEvents, entriesContentEvents, List.append_assoc, List.append_assoc] at same
    obtain ⟨names, tail, inner⟩ := ascends_of_events plain.1 plain'.1 same
    obtain ⟨others, final, later⟩ := ascends_of_entries plain.2 plain'.2 tail
    refine ⟨?_, final, ?_⟩
    · rw [Entries.names, Entries.names, List.map_cons, List.map_cons, names, others]
    · intro ascends
      refine ⟨?_, inner ascends.2.1, later ascends.2.2⟩
      intro other member
      have listed : right other ∈ rest.names.map left := others ▸ List.mem_map_of_mem member
      obtain ⟨old, member', same'⟩ := List.mem_map.mp listed
      rw [← names, ← same']
      exact ascends.1 old member'

end

end Order

/-! ## Reading the contents back -/

section Contents

variable (read : Path → Bytes)

mutual

/-- Reading the files of a tree gives their contents. -/
def TreeReads (path : Path) : Node → Prop
  | .file _ contents => read path = contents
  | .directory entries => EntriesReads path entries
  | _ => True

/-- Reading the files of a directory gives their contents. -/
def EntriesReads (path : Path) : Entries → Prop
  | .nil => True
  | .cons name node rest => TreeReads (path.join name) node ∧ EntriesReads path rest

end

variable {read}

/-- An entry put at its place is read like the others. -/
theorem reads_place {key : Bytes → Bytes} {path : Path} {name : Bytes} {node : Node}
    (first : TreeReads read (path.join name) node) : ∀ {entries : Entries},
      EntriesReads read path entries → EntriesReads read path (entries.place key name node)
  | .nil, others => ⟨first, others⟩
  | .cons other node' rest, others => by
    rw [Entries.place]
    split
    · exact ⟨others.1, reads_place first others.2⟩
    · exact ⟨first, others⟩

mutual

/-- A sorted tree is read like the tree. -/
theorem reads_sorted {key : Bytes → Bytes} {path : Path} : ∀ {node : Node}, TreeReads read path node →
    TreeReads read path (node.sorted key)
  | .file _ _, reads => reads
  | .symlink _, reads => reads
  | .special _, reads => reads
  | .directory _, reads => entriesReads_sorted reads

/-- Sorted entries are read like the entries. -/
theorem entriesReads_sorted {key : Bytes → Bytes} {path : Path} : ∀ {entries : Entries},
    EntriesReads read path entries → EntriesReads read path (entries.sorted key)
  | .nil, reads => reads
  | .cons _ _ _, reads => reads_place (reads_sorted reads.1) (entriesReads_sorted reads.2)

end

mutual

/-- The events of a tree with what is read from the files. -/
theorem events_read {rename : Bytes → Bytes} {path : Path} {name : Bytes} : ∀ {node : Node},
    TreeReads read path node → (treeEvents rename path name node).map (NarEvent.map fun file =>
      read file.path) = contentEvents rename name node
  | .file mode contents, reads => by
    have same : read path = contents := reads
    rw [treeEvents, contentEvents, ← same]
    rfl
  | .symlink _, _ => rfl
  | .special _, _ => rfl
  | .directory entries, reads => by
    rw [treeEvents, contentEvents, List.map_cons, List.map_append, entriesEvents_read reads]
    rfl

/-- The events of the entries of a directory with what is read from the files. -/
theorem entriesEvents_read {rename : Bytes → Bytes} {path : Path} : ∀ {entries : Entries},
    EntriesReads read path entries → (entriesEvents rename path entries).map (NarEvent.map fun file =>
      read file.path) = entriesContentEvents rename entries
  | .nil, _ => rfl
  | .cons _ _ _, reads => by
    rw [entriesEvents, entriesContentEvents, List.map_append, events_read reads.1,
      entriesEvents_read reads.2]

end

end Contents

/-! ## There and back -/

mutual

/-- Names that a coarser key tells apart are apart. -/
theorem apart_finer {coarse fine : Bytes → Bytes}
    (finer : ∀ left right, fine left = fine right → coarse left = coarse right) :
    ∀ {node : Node}, node.Apart coarse → node.Apart fine
  | .file _ _, _ => trivial
  | .symlink _, _ => trivial
  | .special _, _ => trivial
  | .directory _, apart => entriesApart_finer finer apart

/-- Names that a coarser key tells apart are apart. -/
theorem entriesApart_finer {coarse fine : Bytes → Bytes}
    (finer : ∀ left right, fine left = fine right → coarse left = coarse right) :
    ∀ {entries : Entries}, entries.Apart coarse → entries.Apart fine
  | .nil, _ => trivial
  | .cons _ _ _, apart =>
    ⟨fun other member same => apart.1 other member (finer _ _ same), apart_finer finer apart.2.1,
      entriesApart_finer finer apart.2.2⟩

end

section RoundTrip

variable {fs : CaseFs} {lower : Bytes → Bytes} {root : Path} {source tree : Node}
  {read : Path → Bytes} {tasks : List Task} {chunkSize : Nat}

/-- The names of a restored tree differ in more than case, and dumping it gives the events that it was
restored from. -/
def RoundTrips (lower : Bytes → Bytes) (root : Path) (source tree : Node) (read : Path → Bytes)
    (tasks : List Task) (chunkSize : Nat) : Prop :=
  tree.Apart (caseKey lower) ∧ ∃ enough events final,
    (∀ polls, enough ≤ polls →
      (NarDumper.new root (tree.walkdir removeCaseHack root) true tasks chunkSize).collect polls =
        (events, .ready (), final)) ∧
      events.map (NarEvent.map fun file => read file.path) = contentEvents id [] source

/-- Dumping a restored tree gives the events of what became of each node. -/
theorem dump_restored (legal : source.Legal) (made : restored fs lower source = some tree)
    (reads : TreeReads read root tree) (kept : ∀ task ∈ tasks, task.Kept) (positive : 0 < chunkSize) :
    ∃ enough events final, (∀ polls, enough ≤ polls →
      (NarDumper.new root (tree.walkdir removeCaseHack root) true tasks chunkSize).collect polls =
        (events, .ready (), final)) ∧
      events.map (NarEvent.map fun file => read file.path) =
        contentEvents removeCaseHack [] (tree.sorted removeCaseHack) := by
  obtain ⟨legal', plain', _⟩ := restored_sound legal made
  obtain ⟨enough, final, _, _, collects⟩ :=
    @dump_yields root tree tasks chunkSize legal' plain' true removeCaseHack kept positive
  exact ⟨enough, _, final, collects, events_read (reads_sorted reads)⟩

/-- What comes back as it was is in order, and every name with the suffix was hacked. -/
theorem hacked_of_roundTrips (legal : source.Legal) (plain : source.Plain)
    (made : restored fs lower source = some tree) (reads : TreeReads read root tree)
    (kept : ∀ task ∈ tasks, task.Kept) (positive : 0 < chunkSize)
    (trips : RoundTrips lower root source tree read tasks chunkSize) :
    source.Ascends id ∧ Hacked lower source := by
  obtain ⟨_, enough, events, final, collects, same⟩ := trips
  obtain ⟨enough', events', final', collects', same'⟩ := dump_restored legal made reads kept positive
  have both := (collects _ (Nat.le_max_left enough enough')).symm.trans
    (collects' _ (Nat.le_max_right enough enough'))
  obtain ⟨_, plain', _⟩ := restored_sound legal made
  have sorted : (tree.sorted removeCaseHack).Plain := Node.sorted_plain.mpr plain'
  have equal : contentEvents removeCaseHack [] (tree.sorted removeCaseHack) =
      contentEvents id [] source := by
    rw [← same', ← (Prod.mk.inj both).1, same]
  have weights := congrArg (fun events => (events.map eventWeight).sum) equal
  simp only [weight_events sorted, weight_events plain, weight_sorted, Nat.add_left_cancel_iff] at weights
  have hacked := (restored_weight made).2 weights
  have ascends := Node.sorted_ascends (restored_apart legal hacked made)
  have order := @ascends_of_events removeCaseHack id [] [] [] [] _ _ sorted plain (by rw [equal])
  exact ⟨order.2.2 ascends, hacked⟩

/-- Restoring with the case hack on a case-insensitive file system and dumping with it gives the
names apart and the events that were restored, if and only if the siblings were in strictly
increasing order and every name with the suffix came behind one that differs from it only in case. -/
theorem roundTrips_iff
    (insensitive : ∀ left right, caseKey lower left = caseKey lower right → fs.fold left = fs.fold right)
    (legal : source.Legal) (plain : source.Plain) {last : NarRestorer Bytes}
    (done : fs.restoreAll lower root (contentEvents id [] source) (.new root true, none) =
      some (last, some tree))
    (reads : TreeReads read root tree) (kept : ∀ task ∈ tasks, task.Kept) (positive : 0 < chunkSize) :
    RoundTrips lower root source tree read tasks chunkSize ↔
      source.Ascends id ∧ Hacked lower source := by
  have made : restored fs lower source = some tree := by
    have result := @CaseFs.restoreAll_root fs lower root source plain legal
    rw [done] at result
    obtain ⟨tree', made, same⟩ := Option.map_eq_some_iff.mp result.symm
    rw [made, Option.some.inj same]
  constructor
  · exact hacked_of_roundTrips legal plain made reads kept positive
  · rintro ⟨ascends, hacked⟩
    obtain ⟨_, _, apart⟩ := restored_sound legal made
    obtain ⟨enough, events, final, collects, same⟩ := dump_restored legal made reads kept positive
    refine ⟨apart_finer insensitive apart, enough, events, final, collects, ?_⟩
    rw [same, restored_events hacked ascends made]

end RoundTrip

/-- A file system that takes names of ASCII letters for the same whatever their case. -/
def asciiFs : CaseFs := ⟨caseKey asciiLower, fun _ _ => 0⟩

/-- A directory with two files whose names differ only in case. -/
def twoCases : Node :=
  .directory (.cons [0x41] (.file 0o644 []) (.cons [0x61] (.file 0o755 []) .nil))

/-- What is restored of it. -/
def twoCasesMade : Node :=
  .directory (.cons (hackedName [0x61] 1) (.file 0o777 []) (.cons [0x41] (.file 0o666 []) .nil))

/-- Two names that differ only in case come back as they were. -/
theorem roundTrips_iff_twoCases :
    RoundTrips asciiLower restoreRoot twoCases twoCasesMade (fun _ => []) [] 25 := by
  have legal : twoCases.Legal :=
    ⟨by decide, by decide, trivial, by decide, by decide, trivial, trivial⟩
  have plain : twoCases.Plain := ⟨trivial, trivial, trivial⟩
  have ascends : twoCases.Ascends id :=
    ⟨by decide, trivial, by decide, trivial, trivial⟩
  have hacked : Hacked asciiLower twoCases := by
    have none (byte : UInt8) (other : byte ≠ 0x7E) : rfind caseHackSuffix [byte] = none :=
      rfind_free fun other' member => List.mem_singleton.mp member ▸ other
    exact ⟨fun some => absurd (none _ (by decide)) some, trivial,
      fun some => absurd (none _ (by decide)) some, trivial, trivial⟩
  have done : asciiFs.restoreAll asciiLower restoreRoot (contentEvents id [] twoCases)
      (.new restoreRoot true, none) =
        some (⟨restoreRoot, ⟨[.rootDir]⟩, none, true, [([], 0)], []⟩, some twoCasesMade) := by
    decide +kernel
  exact (@roundTrips_iff asciiFs asciiLower restoreRoot twoCases twoCasesMade (fun _ => []) [] 25
    (fun _ _ same => same) legal plain _ done ⟨rfl, rfl, trivial⟩ (fun _ none => by cases none)
    (by decide)).mpr ⟨ascends, hacked⟩

/-- A directory with a file whose name has the suffix already. -/
def suffixed : Node := .directory (.cons (hackedName [0x78] 1) (.file 0o644 []) .nil)

/-- A name that has the suffix already does not come back. -/
theorem suffixed_changes :
    asciiFs.restoreAll asciiLower restoreRoot (contentEvents id [] suffixed)
      (.new restoreRoot true, none) =
        some (⟨restoreRoot, ⟨[.rootDir]⟩, none, true, [([], 0)], []⟩,
          some (.directory (.cons (hackedName [0x78] 1) (.file 0o666 []) .nil))) ∧
      ¬ RoundTrips asciiLower restoreRoot suffixed
        (.directory (.cons (hackedName [0x78] 1) (.file 0o666 []) .nil)) (fun _ => []) [] 25 := by
  refine ⟨by decide +kernel, ?_⟩
  intro trips
  have legal : suffixed.Legal := ⟨legal_hacked (by decide) 1, by simp [Entries.names], trivial, trivial⟩
  have plain : suffixed.Plain := ⟨trivial, trivial⟩
  have made : restored asciiFs asciiLower suffixed =
      some (.directory (.cons (hackedName [0x78] 1) (.file 0o666 []) .nil)) := by decide +kernel
  obtain ⟨_, hacked, _⟩ := @hacked_of_roundTrips asciiFs asciiLower restoreRoot suffixed _
    (fun _ => []) [] 25 legal plain made ⟨rfl, trivial⟩ (fun _ none => by cases none) (by decide) trips
  have found : rfind caseHackSuffix (hackedName [0x78] 1) ≠ none := by decide +kernel
  cases hacked found

end Harmonia.Nar
